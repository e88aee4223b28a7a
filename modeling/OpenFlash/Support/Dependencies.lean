import OpenFlash.Support.Ledger

/-! Ledgers of resources that rest on one another. A resource is acquired after what it rests
on and released before it. -/
namespace Support
variable {ρ : Type}

/-- Everything that a held resource rests on is held as well. -/
def Supported (needs : ρ → List ρ) (held : List ρ) : Prop :=
  ∀ r ∈ held, ∀ x ∈ needs r, x ∈ held

/-- An order in which every resource comes before what it rests on. -/
def TopDown (needs : ρ → List ρ) : List ρ → Prop
  | [] => True
  | r :: rest => (∀ x ∈ needs r, x ∈ rest) ∧ TopDown needs rest

variable {needs : ρ → List ρ}

theorem Supported.perm {held held' : List ρ} (h : Supported needs held) (hperm : held'.Perm held) :
    Supported needs held' :=
  fun r hr x hx => hperm.mem_iff.mpr (h r (hperm.mem_iff.mp hr) x hx)

theorem TopDown.suffix {first order : List ρ} (h : TopDown needs (first ++ order)) :
    TopDown needs order := by
  induction first with
  | nil => exact h
  | cons r rest ih => exact ih h.2

variable [DecidableEq ρ]

/-- A ledger that is in order, with support at every moment. -/
inductive Orderly (needs : ρ → List ρ) : List ρ → List (LedgerEvent ρ) → List ρ → Prop
  | nil (held : List ρ) : Orderly needs held [] held
  | cons {held next last : List ρ} {e : LedgerEvent ρ} {rest : List (LedgerEvent ρ)} :
      e.book held = some next → Supported needs next → Orderly needs next rest last →
      Orderly needs held (e :: rest) last

theorem Orderly.append {held mid last : List ρ} {first second : List (LedgerEvent ρ)}
    (h : Orderly needs held first mid) (h' : Orderly needs mid second last) :
    Orderly needs held (first ++ second) last := by
  induction h with
  | nil held => exact h'
  | cons hbook hsupported _ ih => exact .cons hbook hsupported (ih h')

/-- An orderly ledger from one set of resources to another. -/
def Leads (needs : ρ → List ρ) (held : List ρ) (events : List (LedgerEvent ρ)) (target : List ρ) :
    Prop :=
  ∀ h, h.Perm held → ∃ h', h'.Perm target ∧ Orderly needs h events h'

theorem Leads.append {held mid last : List ρ} {first second : List (LedgerEvent ρ)}
    (h : Leads needs held first mid) (h' : Leads needs mid second last) :
    Leads needs held (first ++ second) last := by
  intro start hstart
  obtain ⟨between, hbetween, hfirst⟩ := h start hstart
  obtain ⟨final, hfinal, hsecond⟩ := h' between hbetween
  exact ⟨final, hfinal, hfirst.append hsecond⟩

theorem Leads.perm {held held' last : List ρ} {events : List (LedgerEvent ρ)}
    (h : Leads needs held events last) (hperm : held'.Perm held) : Leads needs held' events last :=
  fun start hstart => h start (hstart.trans hperm)

/-- A ledger leads to one set of resources only, whatever rests on what. -/
theorem Leads.unique {needs' : ρ → List ρ} {held last last' : List ρ}
    {events : List (LedgerEvent ρ)} (h : Leads needs held events last)
    (h' : Leads needs' held events last') : last.Perm last' := by
  obtain ⟨final, hfinal, horderly⟩ := h held (List.Perm.refl held)
  obtain ⟨final', hfinal', horderly'⟩ := h' held (List.Perm.refl held)
  have hsame : final = final' := by
    clear hfinal hfinal' h h'
    induction horderly with
    | nil held =>
      cases horderly'
      rfl
    | cons hbook _ _ ih =>
      cases horderly' with
      | cons hbook' _ hrest' =>
        rw [Option.some.inj (hbook.symm.trans hbook')] at ih
        exact ih hrest'
  exact hfinal.symm.trans (hsame ▸ hfinal')

end Support
