import OpenFlash.Driver.IoQueueSetup
import OpenFlash.Support.Dependencies

/-! The driver from `openflash_probe` to `openflash_remove`: what it acquires, where it gives up,
and the order in which it lets go. Memory and mappings that the kernel manages for the device
are left to the kernel. -/
namespace OpenFlash.Driver.Lifecycle
open Support IoQueueSetup

inductive Resource where
  | master
  | adminSq
  | adminCq
  | vectors
  | adminIrq
  | enabled
  | io (resource : IoResource)
  | tagSet
  | disk
  | added
  deriving DecidableEq, Repr

abbrev Event := LedgerEvent Resource

/-- What must be there for a resource to be usable: an enabled controller moves data through
the admin rings, a handler reads its rings and tables, and a disk in use submits to them. -/
def needs (depth : ℕ) : Resource → List Resource
  | .adminIrq => [.vectors, .adminCq]
  | .enabled => [.adminCq, .adminSq, .master]
  | .io .irq => .vectors :: (buffers (depth - 1)).map .io
  | .disk => [.tagSet]
  | .added => [.disk, .tagSet, .enabled] ++ (resources depth).map .io
  | _ => []

/-- What the kernel and the controller answer on the way. -/
structure ProbeHost where
  enableDevice : ℤ
  dmaMask : ℤ
  iomap : ℤ
  ofdev : Bool
  abiVersion : ℕ
  queues : Bool
  adminSq : Bool
  adminCq : Bool
  vectors : ℤ
  adminIrq : ℤ
  ready : Bool
  identify : Except Errno UInt64
  io : SetupHost
  tagSet : ℤ
  disk : ℤ
  addDisk : ℤ

/-- `OPENFLASH_ABI_VERSION`. -/
def abiVersion : ℕ := 0 <<< 16 ||| 2

/-- `-ENODEV`. -/
def enodev : ℤ := -19

structure Result where
  ret : ℤ
  nrQueues : ℕ
  disk : Bool
  events : List Event

/-- The labels of `openflash_setup_admin_queue`, each of which falls through to the next. -/
def freeAdminSq (ret : ℤ) (events : List Event) : Result :=
  ⟨ret, 0, false, events ++ [.release .adminSq]⟩

def freeAdminCq (ret : ℤ) (events : List Event) : Result :=
  freeAdminSq ret (events ++ [.release .adminCq])

def freeVectors (ret : ℤ) (events : List Event) : Result :=
  freeAdminCq ret (events ++ [.release .vectors])

def disable (ret : ℤ) (events : List Event) : Result :=
  freeVectors ret (events ++ [.release .enabled, .release .adminIrq])

def openflashSetupAdminQueue (host : ProbeHost) : Result :=
  if host.queues = false then ⟨Errno.enomem.code, 0, false, []⟩
  else if host.adminSq = false then ⟨Errno.enomem.code, 0, false, []⟩
  else if host.adminCq = false then freeAdminSq Errno.enomem.code [.acquire .adminSq]
  else if host.vectors < 0 then
    freeAdminCq host.vectors [.acquire .adminSq, .acquire .adminCq]
  else if host.adminIrq ≠ 0 then
    freeVectors host.adminIrq [.acquire .adminSq, .acquire .adminCq, .acquire .vectors]
  else
    let events : List Event := [.acquire .adminSq, .acquire .adminCq, .acquire .vectors,
      .acquire .adminIrq, .acquire .enabled]
    if host.ready = false then disable Errno.etimedout.code events
    else ⟨0, 1, false, events⟩

def openflashTeardownAdminQueue : List Event :=
  [.release .enabled, .release .adminIrq, .release .vectors, .release .adminCq, .release .adminSq]

/-- The return value of `openflash_admin_identify`. -/
def openflashAdminIdentify (admin : Except Errno UInt64) : ℤ :=
  match admin with
  | .error e => e.code
  | .ok capacity => if capacity = 0 then enodev else 0

def openflashRegisterBlockDevice (host : ProbeHost) : ℤ × List Event :=
  if host.tagSet ≠ 0 then (host.tagSet, [])
  else if host.disk ≠ 0 then (host.disk, [.acquire .tagSet, .release .tagSet])
  else if host.addDisk ≠ 0 then
    (host.addDisk, [.acquire .tagSet, .acquire .disk, .release .disk, .release .tagSet])
  else (0, [.acquire .tagSet, .acquire .disk, .acquire .added])

def ioEvents (events : List IoEvent) : List Event :=
  events.map fun
    | .acquire resource => .acquire (.io resource)
    | .release resource => .release (.io resource)

/-- `depth` is `ofdev->queue_depth`, and `unset` what `openflash_setup_io_queue` finds in its
variable `ret` before it assigns to it. -/
def openflashProbe (host : ProbeHost) (depth : ℕ) (unset : ℤ) : Result :=
  if host.enableDevice ≠ 0 then ⟨host.enableDevice, 0, false, []⟩
  else if host.dmaMask ≠ 0 then ⟨host.dmaMask, 0, false, []⟩
  else if host.iomap ≠ 0 then ⟨host.iomap, 0, false, []⟩
  else if host.ofdev = false then ⟨Errno.enomem.code, 0, false, []⟩
  else if host.abiVersion ≠ abiVersion then ⟨Errno.eproto.code, 0, false, []⟩
  else
    let admin := openflashSetupAdminQueue host
    let events := [.acquire .master] ++ admin.events
    if admin.ret ≠ 0 then ⟨admin.ret, admin.nrQueues, false, events ++ [.release .master]⟩
    else if openflashAdminIdentify host.identify ≠ 0 then
      ⟨openflashAdminIdentify host.identify, 0, false,
        events ++ openflashTeardownAdminQueue ++ [.release .master]⟩
    else
      let io := IoQueueSetup.openflashSetupIoQueue host.io depth admin.nrQueues unset
      let events := events ++ ioEvents io.events
      if io.ret ≠ 0 then
        ⟨io.ret, 0, false, events ++ openflashTeardownAdminQueue ++ [.release .master]⟩
      else
        let block := openflashRegisterBlockDevice host
        let events := events ++ block.2
        if block.1 ≠ 0 then
          ⟨block.1, 0, false,
            events ++ ioEvents (openflashTeardownIoQueue depth io.nrQueues).2
              ++ openflashTeardownAdminQueue ++ [.release .master]⟩
        else ⟨0, io.nrQueues, true, events⟩

/-- The admin queue, top down. -/
def adminOrder : List Resource := [.enabled, .adminIrq, .vectors, .adminCq, .adminSq]

section
variable {depth : ℕ}

end

end OpenFlash.Driver.Lifecycle
