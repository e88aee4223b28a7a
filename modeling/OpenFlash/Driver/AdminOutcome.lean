import OpenFlash.Driver.Admin
import OpenFlash.Support.Ring
import OpenFlash.Support.Runs

/-! The outcome of an admin command against its own completion. While only own completions
are drained under a pending command, no other completion can reach a call. -/
namespace OpenFlash.Driver
open Abi Support
namespace Admin
variable {s : Admin} {n : ℕ}

/-- The device has answered command `n` with this entry. -/
def Answers (s : Admin) (n : ℕ) (cqe : OpenFlashCompletion) : Prop :=
  (n, cqe) ∈ s.posted ∧ ∃ c, s.calls[n]? = some c ∧ cqe.cid = c.command.cid

/-- The own completion of command `n` accounts for a return value; nothing has to account
for a timeout. -/
def Justified (s : Admin) (n : ℕ) : Except Errno UInt64 → Prop
  | .ok r => ∃ cqe, s.Answers n cqe ∧ cqe.status = 0 ∧ cqe.result = r
  | .error .eio => ∃ cqe, s.Answers n cqe ∧ cqe.status ≠ 0
  | .error _ => True

def OutcomeOwn (s : Admin) : Prop :=
  ∀ (n : ℕ) c value, s.calls[n]? = some c → c.returned = some value → s.Justified n value

/-- An entry that the interrupt takes while a command is pending is that command's own. -/
def OwnEntry (s : Admin) : Action → Prop
  | .decide => s.drainer = .matched → s.queue.adminPending = true →
      s.entry s.queue.cqHead = s.caller.current
  | _ => True

instance (s : Admin) : (action : Action) → Decidable (s.OwnEntry action)
  | .decide => inferInstanceAs (Decidable (_ → _ → _))
  | .call _ | .pend | .fill | .ring | .wake | .timeout | .synced | .post _ _ | .test | .clear
  | .complete | .advance => inferInstanceAs (Decidable True)

/-- What decides how a call returns. -/
def SameOutcome (q q' : AdminQueue) : Prop :=
  q'.adminPending = q.adminPending ∧ q'.adminDone = q.adminDone ∧
    q'.adminError = q.adminError ∧ q'.adminStatus = q.adminStatus ∧
    q'.adminResult = q.adminResult

/-- An entry of another command than the current one changes nothing of that. -/
def LateHarmless (s : Admin) : Action → Prop
  | .decide => ∀ m, s.drainer = .matched → s.entry s.queue.cqHead = some m →
      s.caller.current ≠ some m → SameOutcome s.queue (s.step .decide).queue
  | _ => True

def Drainer.Busy (d : Drainer) : Prop := d = .decided ∨ d = .cleared

/-- The queue has the values of the own completion. -/
def Reflects (s : Admin) (n : ℕ) : Prop :=
  s.queue.adminError = none ∧ ∃ cqe, s.Answers n cqe ∧ s.queue.adminStatus = cqe.status ∧
    s.queue.adminResult = cqe.result

def Known (s : Admin) (n : ℕ) : Prop :=
  ∃ c, s.calls[n]? = some c ∧ s.queue.adminCid = c.command.cid

/-- Command `n` is pending, or its completion is being handed over. -/
structure Window (s : Admin) (n : ℕ) : Prop where
  known : s.Known n
  reflects : Drainer.Busy s.drainer ∨ s.queue.adminDone = true → s.Reflects n
  cleared : s.drainer = .cleared ∨ s.queue.adminDone = true → s.queue.adminPending = false
  quiet : s.queue.adminDone = true → ¬ Drainer.Busy s.drainer

/-- What the interrupt may be doing while the call is at a given place. -/
def Fits (s : Admin) : Caller → Prop
  | .idle => s.queue.adminPending = false ∧ ¬ Drainer.Busy s.drainer
  | .named n => s.queue.adminPending = false ∧ ¬ Drainer.Busy s.drainer ∧ s.Known n ∧
      s.queue.adminDone = false
  | .pending n | .filled n | .waiting n => s.Window n
  | .syncing _ => s.queue.adminPending = false

structure Inv (s : Admin) : Prop where
  posted : ∀ n cqe, (n, cqe) ∈ s.posted → s.Answers n cqe
  entries : ∀ slot n, s.entry slot = some n → (n, s.queue.cqes slot) ∈ s.posted
  outcomes : s.OutcomeOwn
  fits : s.Fits s.caller

theorem Inv.of_fits {s' : Admin} (h : s.Inv) (hposted : s'.posted = s.posted)
    (hcalls : s'.calls = s.calls) (hentry : s'.entry = s.entry)
    (hcqes : s'.queue.cqes = s.queue.cqes) (hfits : s'.Fits s'.caller) : s'.Inv := by
  have hanswers : s'.Answers = s.Answers := by
    funext m cqe
    simp only [Answers, hposted, hcalls]
  constructor
  · rw [hposted, hanswers]
    exact h.posted
  · rw [hposted, hentry, hcqes]
    exact h.entries
  · intro m c value hm hvalue
    have hold := h.outcomes m c value (hcalls ▸ hm) hvalue
    unfold Justified at hold ⊢
    rwa [hanswers]
  · exact hfits

/-- Commands stay and completions are added. -/
structure Extends (s s' : Admin) : Prop where
  posted : ∀ x ∈ s.posted, x ∈ s'.posted
  calls : ∀ (n : ℕ) c, s.calls[n]? = some c → ∃ c', s'.calls[n]? = some c' ∧ c'.command = c.command

theorem Extends.answers {s' : Admin} (h : Extends s s') {cqe : OpenFlashCompletion}
    (ha : s.Answers n cqe) : s'.Answers n cqe := by
  obtain ⟨hmem, c, hc, hcid⟩ := ha
  obtain ⟨c', hc', hcommand⟩ := h.calls n c hc
  exact ⟨h.posted _ hmem, c', hc', hcommand ▸ hcid⟩

theorem Extends.justified {s' : Admin} (h : Extends s s') {value : Except Errno UInt64}
    (hj : s.Justified n value) : s'.Justified n value := by
  cases value with
  | ok r =>
    obtain ⟨cqe, ha, hrest⟩ := hj
    exact ⟨cqe, h.answers ha, hrest⟩
  | error e =>
    cases e with
    | eio =>
      obtain ⟨cqe, ha, hrest⟩ := hj
      exact ⟨cqe, h.answers ha, hrest⟩
    | etimedout => trivial
    | eproto => trivial
    | enomem => trivial

theorem Fits.imp {s' : Admin} {caller : Caller} (h : s.Fits caller)
    (hpending : s.queue.adminPending = false → s'.queue.adminPending = false)
    (hquiet : ¬ Drainer.Busy s.drainer → ¬ Drainer.Busy s'.drainer)
    (hknown : ∀ n, s.Known n → s'.Known n)
    (hdone : s.queue.adminDone = false → ¬ Drainer.Busy s.drainer → s'.queue.adminDone = false)
    (hwindow : ∀ n, s.Window n → s'.Window n) : s'.Fits caller := by
  cases caller with
  | idle => exact ⟨hpending h.1, hquiet h.2⟩
  | named n =>
    obtain ⟨hp, hq, hk, hd⟩ := h
    exact ⟨hpending hp, hquiet hq, hknown n hk, hdone hd hq⟩
  | pending n => exact hwindow n h
  | filled n => exact hwindow n h
  | waiting n => exact hwindow n h
  | syncing n => exact hpending h

theorem call_inv (h : s.Inv) (hidle : s.caller = .idle) (cmd : OpenFlashCommand) :
    (s.call cmd).Inv := by
  have hext : Extends s (s.call cmd) := by
    refine ⟨fun _ hx => hx, fun m c hc => ⟨c, ?_, rfl⟩⟩
    exact (List.getElem?_append_left (List.getElem?_eq_some_iff.mp hc).1).trans hc
  have hfits := h.fits
  rw [hidle] at hfits
  constructor
  · exact fun m cqe hm => hext.answers (h.posted m cqe hm)
  · exact h.entries
  · intro m c value hc hvalue
    rcases Ring.getElem?_append_singleton hc with hc | ⟨-, rfl⟩
    · exact hext.justified (h.outcomes m c value hc hvalue)
    · cases hvalue
  · have hlast : (s.call cmd).calls[s.calls.length]?
        = some ⟨{ cmd with qid := 0, cid := freshCid s.queue.nextCid }, none⟩ :=
      List.getElem?_concat_length
    exact ⟨hfits.1, hfits.2, ⟨_, hlast, rfl⟩, rfl⟩

theorem leave_inv (h : s.Inv) {value : Except Errno UInt64}
    (hpending : s.queue.adminPending = false) (hquiet : ¬ Drainer.Busy s.drainer)
    (hvalue : s.Justified n value) : (s.leave n value).Inv := by
  have hext : Extends s (s.leave n value) := by
    refine ⟨fun _ hx => hx, fun m c hc => ?_⟩
    simp only [leave, List.getElem?_modify, hc]
    split_ifs
    · exact ⟨_, rfl, rfl⟩
    · exact ⟨_, rfl, rfl⟩
  constructor
  · exact fun m cqe hm => hext.answers (h.posted m cqe hm)
  · exact h.entries
  · intro m c v hc hv
    simp only [leave, List.getElem?_modify] at hc
    split_ifs at hc with hm
    · obtain ⟨c', -, rfl⟩ := Option.map_eq_some_iff.mp hc
      cases hv
      exact hm ▸ hext.justified hvalue
    · exact hext.justified (h.outcomes m c v (by simpa using hc) hv)
  · exact ⟨hpending, hquiet⟩

theorem Reflects.justified (h : s.Reflects n) : s.Justified n s.queue.outcome := by
  obtain ⟨herror, cqe, ha, hstatus, hresult⟩ := h
  simp only [AdminQueue.outcome, herror]
  split_ifs with hzero
  · exact ⟨cqe, ha, hstatus ▸ hzero⟩
  · rw [not_not] at hzero
    exact ⟨cqe, ha, hstatus ▸ hzero, hresult.symm⟩

theorem post_inv (h : s.Inv) {c : AdminCall} (hc : s.calls[n]? = some c)
    (cqe : OpenFlashCompletion) : (s.post n c.command cqe).Inv := by
  have hext : Extends s (s.post n c.command cqe) :=
    ⟨fun _ hx => List.mem_append_left _ hx, fun m c hc => ⟨c, hc, rfl⟩⟩
  constructor
  · intro m e hm
    rcases List.mem_append.mp hm with hm | hm
    · exact hext.answers (h.posted m e hm)
    · cases List.mem_singleton.mp hm
      exact ⟨List.mem_append_right _ (List.mem_singleton_self _), c, hc, rfl⟩
  · intro slot m hm
    simp only [post, Function.update_apply] at hm ⊢
    split_ifs at hm ⊢ with hslot
    · cases hm
      exact List.mem_append_right _ (List.mem_singleton_self _)
    · exact List.mem_append_left _ (h.entries slot m hm)
  · exact fun m c value hm hvalue => hext.justified (h.outcomes m c value hm hvalue)
  · have hwindow : ∀ m, s.Window m → (s.post n c.command cqe).Window m := by
      intro m hw
      refine ⟨hw.known, fun hb => ?_, hw.cleared, hw.quiet⟩
      obtain ⟨herror, e, ha, hrest⟩ := hw.reflects hb
      exact ⟨herror, e, hext.answers ha, hrest⟩
    exact h.fits.imp id id (fun _ hk => hk) (fun hd _ => hd) hwindow

/-- While a command is pending its call is in the window. -/
theorem Inv.window (h : s.Inv) (hpending : s.queue.adminPending = true) :
    ∃ n, s.caller.current = some n ∧ s.Window n ∧
      ∀ s' : Admin, s'.Window n → s'.Fits s.caller := by
  have hfits := h.fits
  generalize s.caller = caller at hfits ⊢
  cases caller with
  | idle => exact absurd (hpending.symm.trans hfits.1) (by decide)
  | named m => exact absurd (hpending.symm.trans hfits.1) (by decide)
  | pending m => exact ⟨m, rfl, hfits, fun _ hw => hw⟩
  | filled m => exact ⟨m, rfl, hfits, fun _ hw => hw⟩
  | waiting m => exact ⟨m, rfl, hfits, fun _ hw => hw⟩
  | syncing m => exact absurd (hpending.symm.trans hfits) (by decide)

/-- A call starts to wait with nothing recorded and the interrupt past its last decision. -/
theorem pend_inv (h : s.Inv) {n : ℕ} (hcaller : s.caller = .named n) :
    Inv { s with queue := { s.queue with adminPending := true }, caller := .pending n } := by
  have hfits := h.fits
  rw [hcaller] at hfits
  obtain ⟨-, hquiet, hknown, hdone⟩ := hfits
  have hidle : ¬ (Drainer.Busy s.drainer ∨ s.queue.adminDone = true) := by simp [hquiet, hdone]
  refine h.of_fits rfl rfl rfl rfl ⟨hknown, fun hb => absurd hb hidle, ?_, fun _ => hquiet⟩
  rintro (hb | hb)
  · exact absurd (Or.inr hb) hquiet
  · exact absurd (Or.inr hb) hidle

/-- The own entry is taken for what it is. -/
theorem record_inv (h : s.Inv) (hpending : s.queue.adminPending = true)
    (hown : s.entry s.queue.cqHead = s.caller.current) :
    Inv { s with queue := s.queue.record, drainer := .decided } := by
  obtain ⟨n, hcurrent, hw, hfits⟩ := h.window hpending
  have hmem := h.entries _ n (hown.trans hcurrent)
  have hanswers := h.posted n _ hmem
  obtain ⟨c, hc, hcid⟩ := hw.known
  have hsame : s.queue.head.cid = s.queue.adminCid := by
    obtain ⟨-, c', hc', hcid'⟩ := hanswers
    rw [hc] at hc'
    cases hc'
    exact hcid'.trans hcid.symm
  have hdone : s.queue.adminDone ≠ true := by
    intro hd
    exact absurd (hpending.symm.trans (hw.cleared (Or.inr hd))) (by decide)
  simp only [AdminQueue.record, hsame, if_true]
  apply h.of_fits
  · rfl
  · rfl
  · rfl
  · rfl
  · apply hfits
    constructor
    · exact hw.known
    · exact fun _ => ⟨rfl, _, hanswers, rfl, rfl⟩
    · rintro (hd | hd)
      · cases hd
      · exact absurd hd hdone
    · exact fun hd => absurd hd hdone

/-- Steps of the interrupt that leave the call alone. -/
theorem drainer_inv (h : s.Inv) {d : Drainer} (hd : ¬ Drainer.Busy d) {q : AdminQueue}
    (hcqes : q.cqes = s.queue.cqes) (hsame : SameOutcome s.queue q)
    (hcid : q.adminCid = s.queue.adminCid) : Inv { s with queue := q, drainer := d } := by
  obtain ⟨hpending, hdone, herror, hstatus, hresult⟩ := hsame
  have hknown : ∀ m, s.Known m → Known { s with queue := q, drainer := d } m := by
    rintro m ⟨c, hc, hm⟩
    exact ⟨c, hc, hcid.trans hm⟩
  refine h.of_fits rfl rfl rfl hcqes (h.fits.imp (fun hp => hpending.trans hp) (fun _ => hd)
    hknown (fun hdn _ => hdone.trans hdn) fun m hw => ?_)
  constructor
  · exact hknown m hw.known
  · rintro (hb | hb)
    · exact absurd hb hd
    · obtain ⟨he, cqe, ha, hs, hr⟩ := hw.reflects (Or.inr (hdone.symm.trans hb))
      exact ⟨herror.trans he, cqe, ha, hstatus.trans hs, hresult.trans hr⟩
  · rintro (hb | hb)
    · exact absurd (Or.inr hb) hd
    · exact hpending.trans (hw.cleared (Or.inr (hdone.symm.trans hb)))
  · exact fun _ => hd

theorem clear_inv (h : s.Inv) (hd : s.drainer = .decided) :
    Inv { s with queue := { s.queue with adminPending := false }, drainer := .cleared } := by
  have hbusy : Drainer.Busy s.drainer := Or.inl hd
  refine h.of_fits rfl rfl rfl rfl (h.fits.imp (fun _ => rfl) (absurd hbusy) (fun _ hk => hk)
    (fun hdn _ => hdn) fun m hw => ⟨hw.known, ?_, fun _ => rfl, ?_⟩)
  · exact fun _ => hw.reflects (Or.inl hbusy)
  · exact fun hdone => absurd hbusy (hw.quiet hdone)

theorem complete_inv (h : s.Inv) (hd : s.drainer = .cleared) :
    Inv { s with queue := { s.queue with adminDone := true }, drainer := .advancing } := by
  have hbusy : Drainer.Busy s.drainer := Or.inr hd
  refine h.of_fits rfl rfl rfl rfl (h.fits.imp id (absurd hbusy) (fun _ hk => hk)
    (fun _ hq => absurd hbusy hq) fun m hw => ⟨hw.known, ?_, ?_, ?_⟩)
  · exact fun _ => hw.reflects (Or.inl hbusy)
  · exact fun _ => hw.cleared (Or.inl hd)
  · rintro - (hb | hb) <;> cases hb

theorem step_inv (h : s.Inv) (action : Action) (hown : s.OwnEntry action) :
    (s.step action).Inv := by
  have hfits := h.fits
  cases action with
  | call cmd =>
    simp only [step]
    split_ifs with hidle
    · exact call_inv h hidle.1 cmd
    · exact h
  | pend =>
    simp only [step]
    split
    · rename_i n hcaller
      exact pend_inv h hcaller
    · exact h
  | fill =>
    simp only [step]
    split
    · rename_i n hcaller
      rw [hcaller] at hfits
      split
      · exact h.of_fits rfl rfl rfl rfl
          ⟨hfits.known, hfits.reflects, hfits.cleared, hfits.quiet⟩
      · exact h
    · exact h
  | ring =>
    simp only [step]
    split
    · rename_i n hcaller
      rw [hcaller] at hfits
      exact h.of_fits rfl rfl rfl rfl ⟨hfits.known, hfits.reflects, hfits.cleared, hfits.quiet⟩
    · exact h
  | wake =>
    simp only [step]
    split
    · rename_i n hcaller
      rw [hcaller] at hfits
      split_ifs with hdone
      · exact leave_inv h (hfits.cleared (Or.inr hdone)) (hfits.quiet hdone)
          (hfits.reflects (Or.inr hdone)).justified
      · exact h
    · exact h
  | timeout =>
    simp only [step]
    split
    · split_ifs
      · exact h
      · exact h.of_fits rfl rfl rfl rfl rfl
    · exact h
  | synced =>
    simp only [step]
    split
    · rename_i n hcaller
      rw [hcaller] at hfits
      split_ifs with hd
      · exact leave_inv h hfits (by rw [hd]; rintro (hb | hb) <;> cases hb) trivial
      · exact h
    · exact h
  | post n cqe =>
    simp only [step]
    split
    · rename_i c hc
      split_ifs
      · exact post_inv h hc cqe
      · exact h
    · exact h
  | test =>
    simp only [step]
    split_ifs
    · exact drainer_inv h (by rintro (hb | hb) <;> cases hb) rfl ⟨rfl, rfl, rfl, rfl, rfl⟩ rfl
    · exact h
  | decide =>
    simp only [step]
    split_ifs with hmatched hpending
    · exact h
    · exact record_inv h hpending (hown (not_not.mp hmatched) hpending)
    · exact drainer_inv h (by rintro (hb | hb) <;> cases hb) rfl ⟨rfl, rfl, rfl, rfl, rfl⟩ rfl
  | clear =>
    simp only [step]
    split_ifs with hd
    · exact clear_inv h hd
    · exact h
  | complete =>
    simp only [step]
    split_ifs with hd
    · exact complete_inv h hd
    · exact h
  | advance =>
    simp only [step]
    split_ifs
    · exact drainer_inv h (by rintro (hb | hb) <;> cases hb) rfl ⟨rfl, rfl, rfl, rfl, rfl⟩ rfl
    · exact h

theorem start_inv (depth : ℕ) : (start depth).Inv := by
  constructor
  · intro n cqe hm
    cases hm
  · intro slot n hm
    cases hm
  · intro n c value hc
    cases hc
  · exact ⟨rfl, by rintro (hb | hb) <;> cases hb⟩

theorem OwnEntry.lateHarmless (action : Action) (hown : s.OwnEntry action) :
    s.LateHarmless action := by
  cases action with
  | decide =>
    intro m hmatched hentry hcurrent
    simp only [step]
    split_ifs with hm hpending
    · exact ⟨rfl, rfl, rfl, rfl, rfl⟩
    · exact absurd ((hown hmatched hpending).symm.trans hentry) hcurrent
    · exact ⟨rfl, rfl, rfl, rfl, rfl⟩
  | _ => trivial

/-- In every interleaving in which the interrupt takes no foreign entry while a command is
pending, every call returns what its own completion says, and late completions of earlier
commands change nothing for the current one. -/
theorem adminCommand_outcomeOwn (depth : ℕ) (actions : List Action)
    (hown : Along step OwnEntry (start depth) actions) :
    (∀ k, ((start depth).run (actions.take k)).OutcomeOwn) ∧
      Along step LateHarmless (start depth) actions := by
  constructor
  · intro k
    have hstep : ∀ s action, Inv s → OwnEntry s action → Inv (s.step action) :=
      fun _ action h hown => step_inv h action hown
    exact (Along.invariant hstep (start_inv depth) hown k).outcomes
  · exact hown.imp fun _ action hown => hown.lateHarmless action

def identify : OpenFlashCommand := { opcode := 0x80 }

/-- A call up to its wait. -/
def submitted : List Action := [.call identify, .pend, .fill, .ring]

/-- The interrupt takes one entry while a command is pending. -/
def drainedPending : List Action := [.test, .decide, .clear, .complete, .advance]

/-- The first command times out, its completion arrives late but before the second call. -/
def lateBetweenCalls : List Action :=
  submitted ++ [.timeout, .synced, .post 0 ⟨5, 0, 0, 0, 0, 0⟩, .test, .decide, .advance] ++
    submitted ++ [.post 1 ⟨7, 0, 0, 0, 0, 0⟩] ++ drainedPending ++ [.wake]

theorem lateBetweenCalls_outcomeOwn :
    Along step OwnEntry (start 4) lateBetweenCalls ∧
      (((start 4).run lateBetweenCalls).calls.map AdminCall.returned
        = [some (.error .etimedout), some (.ok 7)]) ∧
      (∀ k, ((start 4).run (lateBetweenCalls.take k)).OutcomeOwn) ∧
      Along step LateHarmless (start 4) lateBetweenCalls := by
  have hown : Along step OwnEntry (start 4) lateBetweenCalls := by decide
  exact ⟨hown, by decide, adminCommand_outcomeOwn 4 _ hown⟩

/-- The first command times out and its completion arrives while the second call waits. -/
def lateWhilePending : List Action :=
  submitted ++ [.timeout, .synced] ++ submitted ++ [.post 0 ⟨5, 0, 0, 0, 0, 0⟩] ++
    drainedPending ++ [.wake, .post 1 ⟨7, 0, 0, 0, 0, 0⟩]

/-- The second call returns `-EIO`, although its own completion reports success. -/
theorem lateWhilePending_not_outcomeOwn :
    ((start 4).run lateWhilePending).calls.map AdminCall.returned
        = [some (.error .etimedout), some (.error .eio)] ∧
      ((start 4).run lateWhilePending).posted.map (fun x => (x.1, x.2.status, x.2.result))
        = [(0, 0, 5), (1, 0, 7)] ∧
      ¬ ((start 4).run lateWhilePending).OutcomeOwn := by
  have hposted : ((start 4).run lateWhilePending).posted
      = [(0, ⟨5, 0, 0, 1, 0, 1⟩), (1, ⟨7, 0, 0, 2, 0, 1⟩)] := by decide
  refine ⟨by decide, by decide, fun h => ?_⟩
  obtain ⟨cqe, ⟨hmem, -⟩, hstatus⟩ := h 1 _ (.error .eio) rfl rfl
  rw [hposted] at hmem
  simp only [List.mem_cons, Prod.mk.injEq, Nat.one_ne_zero, false_and, true_and,
    List.not_mem_nil, or_false, false_or] at hmem
  rw [hmem] at hstatus
  exact hstatus rfl

end Admin
end OpenFlash.Driver
