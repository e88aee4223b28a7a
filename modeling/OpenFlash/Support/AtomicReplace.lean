import OpenFlash.Support.Runs

/-! Saving a state by writing a temporary file and renaming it over the previous one. A crash
at any point leaves either the old file or the new one, so the process is a store that
remembers its last complete snapshot. -/
namespace Support
variable {σ α ω π ε : Type}

inductive SaveEvent (α : Type) where
  | call (input : α)
  | openTemporary
  | finishText
  | replace
  | crash

inductive SaveOutput (ω ε : Type) where
  | answered (output : ω)
  | saving
  | restarted (error : Option ε)

/-- How far a save has come, and what it saves. -/
inductive SaveStage (π : Type) where
  | idle
  | writing (payload : π)
  | written (payload : π)

/-- A file is absent, torn or complete. -/
abbrev SavedFile (π : Type) := Option (Option π)

/-- A process with its two files. -/
structure Saving (σ π : Type) where
  current : σ
  stage : SaveStage π
  temporary : SavedFile π
  file : SavedFile π

/-- The store that remembers its last complete snapshot. -/
structure Snapshots (σ : Type) where
  current : σ
  stage : SaveStage σ
  saved : Option σ

/-- The start of a process, its operations, and how it saves and loads. -/
structure SaveProgram (σ α ω π ε : Type) where
  initial : σ
  step : σ → α → ω × σ
  encode : σ → π
  load : SavedFile π → Except ε σ

namespace SaveProgram

def start (m : SaveProgram σ α ω π ε) : Saving σ π := ⟨m.initial, .idle, none, none⟩

/-- Opening the temporary file truncates it, and the rename takes whatever it contains. A
process that cannot load its file starts anew. -/
def next (m : SaveProgram σ α ω π ε) (s : Saving σ π) :
    SaveEvent α → SaveOutput ω ε × Saving σ π
  | .call input =>
      (.answered (m.step s.current input).1, { s with current := (m.step s.current input).2 })
  | .openTemporary =>
      (.saving, { s with stage := .writing (m.encode s.current), temporary := some none })
  | .finishText =>
      match s.stage with
      | .writing payload =>
          (.saving, { s with stage := .written payload, temporary := some (some payload) })
      | _ => (.saving, s)
  | .replace =>
      match s.stage with
      | .written _ => (.saving, { s with stage := .idle, temporary := none, file := s.temporary })
      | _ => (.saving, s)
  | .crash =>
      match m.load s.file with
      | .ok t => (.restarted none, { s with current := t, stage := .idle })
      | .error error => (.restarted (some error), { s with current := m.initial, stage := .idle })

def snapshotStart (m : SaveProgram σ α ω π ε) : Snapshots σ := ⟨m.initial, .idle, none⟩

/-- `missing` is the error of a start without a file. -/
def snapshotNext (m : SaveProgram σ α ω π ε) (missing : ε) (t : Snapshots σ) :
    SaveEvent α → SaveOutput ω ε × Snapshots σ
  | .call input =>
      (.answered (m.step t.current input).1, { t with current := (m.step t.current input).2 })
  | .openTemporary => (.saving, { t with stage := .writing t.current })
  | .finishText =>
      match t.stage with
      | .writing snapshot => (.saving, { t with stage := .written snapshot })
      | _ => (.saving, t)
  | .replace =>
      match t.stage with
      | .written snapshot => (.saving, { t with stage := .idle, saved := some snapshot })
      | _ => (.saving, t)
  | .crash =>
      match t.saved with
      | some snapshot => (.restarted none, { t with current := snapshot, stage := .idle })
      | none => (.restarted (some missing), { t with current := m.initial, stage := .idle })

/-- Operations do not tell related states apart, and what is saved loads as a related state. -/
structure Faithful (m : SaveProgram σ α ω π ε) (missing : ε) (R : σ → σ → Prop)
    (inv : σ → Prop) : Prop where
  initial : R m.initial m.initial ∧ inv m.initial
  step : ∀ s t a, R s t → inv t →
    (m.step s a).1 = (m.step t a).1 ∧ R (m.step s a).2 (m.step t a).2 ∧ inv (m.step t a).2
  load : ∀ s t, R s t → inv t → ∃ u, m.load (some (some (m.encode s))) = .ok u ∧ R u t
  missing : m.load none = .error missing

section
variable {m : SaveProgram σ α ω π ε} {missing : ε} {R : σ → σ → Prop} {inv : σ → Prop}

/-- A complete file that loads as the snapshot. -/
def Keeps (m : SaveProgram σ α ω π ε) (R : σ → σ → Prop) (inv : σ → Prop) (payload : π)
    (snapshot : σ) : Prop :=
  inv snapshot ∧ ∃ u, m.load (some (some payload)) = .ok u ∧ R u snapshot

/-- A save in progress is a save of the snapshot; the text it has finished is complete. -/
inductive StageRelated (m : SaveProgram σ α ω π ε) (R : σ → σ → Prop) (inv : σ → Prop) :
    SavedFile π → SaveStage π → SaveStage σ → Prop
  | idle (temporary : SavedFile π) : StageRelated m R inv temporary .idle .idle
  | writing (temporary : SavedFile π) {payload : π} {snapshot : σ} :
      m.Keeps R inv payload snapshot →
      StageRelated m R inv temporary (.writing payload) (.writing snapshot)
  | written {payload : π} {snapshot : σ} : m.Keeps R inv payload snapshot →
      StageRelated m R inv (some (some payload)) (.written payload) (.written snapshot)

/-- The file is absent or complete, never torn. -/
inductive FileRelated (m : SaveProgram σ α ω π ε) (R : σ → σ → Prop) (inv : σ → Prop) :
    SavedFile π → Option σ → Prop
  | absent : FileRelated m R inv none none
  | complete {payload : π} {snapshot : σ} : m.Keeps R inv payload snapshot →
      FileRelated m R inv (some (some payload)) (some snapshot)

structure Related (m : SaveProgram σ α ω π ε) (R : σ → σ → Prop) (inv : σ → Prop)
    (s : Saving σ π) (t : Snapshots σ) : Prop where
  current : R s.current t.current
  valid : inv t.current
  stage : m.StageRelated R inv s.temporary s.stage t.stage
  file : m.FileRelated R inv s.file t.saved

theorem Faithful.start (h : m.Faithful missing R inv) :
    m.Related R inv m.start m.snapshotStart :=
  ⟨h.initial.1, h.initial.2, .idle none, .absent⟩

/-- Each event shows the same on both sides and keeps them related. -/
theorem Faithful.next (h : m.Faithful missing R inv) {s : Saving σ π} {t : Snapshots σ}
    (hr : m.Related R inv s t) (event : SaveEvent α) :
    (m.next s event).1 = (m.snapshotNext missing t event).1 ∧
      m.Related R inv (m.next s event).2 (m.snapshotNext missing t event).2 := by
  obtain ⟨current, stage, temporary, file⟩ := s
  obtain ⟨current', stage', saved⟩ := t
  obtain ⟨hcurrent, hvalid, hstage, hfile⟩ := hr
  cases event with
  | call input =>
    obtain ⟨houtput, hnext, hvalid'⟩ := h.step current current' input hcurrent hvalid
    exact ⟨congrArg _ houtput, hnext, hvalid', hstage, hfile⟩
  | openTemporary =>
    have hkeeps : m.Keeps R inv (m.encode current) current' :=
      ⟨hvalid, h.load current current' hcurrent hvalid⟩
    exact ⟨rfl, hcurrent, hvalid, .writing _ hkeeps, hfile⟩
  | finishText =>
    cases hstage with
    | idle => exact ⟨rfl, hcurrent, hvalid, .idle _, hfile⟩
    | writing _ hkeeps => exact ⟨rfl, hcurrent, hvalid, .written hkeeps, hfile⟩
    | written hkeeps => exact ⟨rfl, hcurrent, hvalid, .written hkeeps, hfile⟩
  | replace =>
    cases hstage with
    | idle => exact ⟨rfl, hcurrent, hvalid, .idle _, hfile⟩
    | writing _ hkeeps => exact ⟨rfl, hcurrent, hvalid, .writing _ hkeeps, hfile⟩
    | written hkeeps => exact ⟨rfl, hcurrent, hvalid, .idle _, .complete hkeeps⟩
  | crash =>
    cases hfile with
    | absent =>
      simp only [SaveProgram.next, snapshotNext, h.missing]
      exact ⟨trivial, h.initial.1, h.initial.2, .idle _, .absent⟩
    | complete hkeeps =>
      obtain ⟨hsnapshot, u, hload, hu⟩ := hkeeps
      simp only [SaveProgram.next, snapshotNext, hload]
      exact ⟨trivial, hu, hsnapshot, .idle _, .complete ⟨hsnapshot, u, hload, hu⟩⟩

/-- In every history the process shows what the store of snapshots shows. -/
theorem Faithful.runOutputs (h : m.Faithful missing R inv) (events : List (SaveEvent α)) :
    (Support.runOutputs m.next m.start events).1
      = (Support.runOutputs (m.snapshotNext missing) m.snapshotStart events).1 := by
  have hstep : ∀ s t event, m.Related R inv s t → True →
      (m.next s event).1 = (m.snapshotNext missing t event).1 ∧
        m.Related R inv (m.next s event).2 (m.snapshotNext missing t event).2 :=
    fun s t event hr _ => h.next hr event
  exact runOutputs_lockstep hstep events (fun _ _ => trivial) h.start

end
end SaveProgram
end Support
