import Ecma119.Directory.Authoring
import Ecma119.Source

/-!
# Running work that can fail

Authoring, reading sectors and reading volumes are all work of one shape: it can fail, and it keeps
a state whether it fails or not. These are the steps of such a run. A proof goes through a run by
naming what each part of it comes to.
-/

namespace Ecma119

section Steps

variable {ε σ α β : Type} {work : ExceptT ε (StateM σ) α} {next : α → ExceptT ε (StateM σ) β}
variable {s s' : σ}

/-- A part that succeeds hands its value and its state on to what comes next. -/
theorem run_bind_ok {a : α} (h : work.run.run s = (.ok a, s')) :
    (work >>= next).run.run s = (next a).run.run s' := by
  show (work.run.run s >>= fun p => (ExceptT.bindCont next p.1).run p.2 : Id _) = _
  rw [h]
  rfl

/-- A part that fails is the end of the run, and the state that it leaves is the one that is left. -/
theorem run_bind_error {failure : ε} (h : work.run.run s = (.error failure, s')) :
    (work >>= next).run.run s = (.error failure, s') := by
  show (work.run.run s >>= fun p => (ExceptT.bindCont next p.1).run p.2 : Id _) = _
  rw [h]
  rfl

/-- A run that succeeds has a first part that does, and its second part succeeds on what that gives. -/
theorem run_bind_eq_ok {b : β} (h : (work >>= next).run.run s = (.ok b, s')) :
    ∃ a s₁, work.run.run s = (.ok a, s₁) ∧ (next a).run.run s₁ = (.ok b, s') := by
  cases hwork : work.run.run s with
  | mk outcome s₁ =>
    cases outcome with
    | ok a =>
      rw [run_bind_ok hwork] at h
      exact ⟨a, s₁, rfl, h⟩
    | error failure =>
      rw [run_bind_error hwork] at h
      cases h

theorem run_pure (a : α) : (pure a : ExceptT ε (StateM σ) α).run.run s = (.ok a, s) := rfl

theorem run_throw (failure : ε) :
    (throw failure : ExceptT ε (StateM σ) α).run.run s = (.error failure, s) := rfl

theorem run_get : (get : ExceptT ε (StateM σ) σ).run.run s = (.ok s, s) := rfl

theorem run_modify (f : σ → σ) :
    (modify f : ExceptT ε (StateM σ) PUnit).run.run s = (.ok ⟨⟩, f s) := rfl

theorem run_liftM (result : Except ε α) :
    (liftM result : ExceptT ε (StateM σ) α).run.run s = (result, s) := rfl

end Steps

/-- Work that cannot fail hands its value and its state on, and its second part is always reached. -/
theorem run_stateBind {σ α β : Type} {work : StateM σ α} {next : α → StateM σ β} {s s' : σ} {a : α}
    (h : work.run s = (a, s')) : (work >>= next).run s = (next a).run s' := by
  show ((next (work.run s).1).run (work.run s).2) = _
  rw [h]

theorem run_stateGet {σ : Type} {s : σ} : (get : StateM σ σ).run s = (s, s) := rfl

/-- Work that cannot fail, as a part of work that can. -/
theorem run_liftState {ε σ α : Type} {work : StateM σ α} {s s' : σ} {a : α}
    (h : work.run s = (a, s')) :
    (liftM work : ExceptT ε (StateM σ) α).run.run s = (.ok a, s') := by
  show ((Except.ok (work.run s).1, (work.run s).2) : Except ε α × σ) = _
  rw [h]

/-- A result of two steps that is a value has a first step that is one, and a second made of that. -/
theorem except_bind_eq_ok {ε α β : Type} {first : Except ε α} {next : α → Except ε β} {b : β}
    (h : (first >>= next) = .ok b) : ∃ a, first = .ok a ∧ next a = .ok b := by
  cases first with
  | ok a => exact ⟨a, rfl, h⟩
  | error failure => cases h

/-- Two steps succeed exactly if the first does and the second does on its value. -/
theorem except_bind_eq_ok_iff {ε α β : Type} {first : Except ε α} {next : α → Except ε β} {b : β} :
    (first >>= next) = .ok b ↔ ∃ a, first = .ok a ∧ next a = .ok b := by
  refine ⟨except_bind_eq_ok, ?_⟩
  rintro ⟨a, rfl, hnext⟩
  exact hnext

theorem mapError_eq_ok {ε ε' α : Type} {result : Except ε α} {f : ε → ε'} {a : α} :
    result.mapError f = .ok a ↔ result = .ok a := by
  cases result with
  | error cause => exact ⟨fun h => (nomatch h), fun h => (nomatch h)⟩
  | ok b =>
    constructor
    · intro h
      cases h
      rfl
    · intro h
      cases h
      rfl

theorem map_eq_ok {ε α β : Type} {result : Except ε α} {f : α → β} {b : β} :
    result.map f = .ok b ↔ ∃ a, result = .ok a ∧ f a = b := by
  cases result <;> simp [Except.map]

/-- Changing the value of a result does not change whether there is one. -/
theorem exists_map_eq_ok {ε α β : Type} {result : Except ε α} {f : α → β} :
    (∃ b, result.map f = .ok b) ↔ ∃ a, result = .ok a := by
  cases result <;> simp [Except.map]

/-- Whether a result is a certain value can be seen from the value alone, which `decide` can compare. -/
theorem eq_ok_of_toOption {ε α : Type} {result : Except ε α} {a : α}
    (h : result.toOption = some a) :
    result = .ok a := by
  cases result with
  | ok b =>
    cases h
    rfl
  | error failure => cases h

/-- A fault of recorded bytes that is met while sectors are read is the failure of the work, under
`Error.format`. -/
theorem run_liftM_format {δ α : Type} (result : Except FormatError α) (s : SectorSource δ) :
    (liftM result : SourceM δ α).run.run s = (result.mapError .format, s) := rfl

/-- A value that was made of bytes is given without touching the source. -/
theorem run_liftM_ok {δ α : Type} {result : Except FormatError α} {a : α} (h : result = .ok a)
    (s : SectorSource δ) : (liftM result : SourceM δ α).run.run s = (.ok a, s) := by
  rw [run_liftM_format, h]
  rfl

/-- Making sense of bytes gives their value or fails, and in no case touches the source. -/
theorem of_run_liftM {δ α : Type} {result : Except FormatError α} {a : α} {s s' : SectorSource δ}
    (h : (liftM result : SourceM δ α).run.run s = (.ok a, s')) : result = .ok a ∧ s' = s := by
  rw [run_liftM_format] at h
  cases result with
  | ok b =>
    cases h
    exact ⟨rfl, rfl⟩
  | error cause => cases h

end Ecma119
