import Ecma119.Proofs.Run

/-!
# Two runs side by side

`Follows R carried work work'` compares two runs that start from states related by `R`. What the
first comes to, the second comes to as well, and the states are related again; a failure of the
first has to be met only if it is one of those that are `carried` over. Where all failures are, the
runs cannot be told apart. Where some are not, nothing is asked of the second run once the first has
met one of them.
-/

namespace Ecma119

variable {σ τ α β : Type}

/-- Whether a result is a value or a failure that is carried over. -/
def IsCarried (carried : Error → Prop) : Except Error α → Prop
  | .ok _ => True
  | .error failure => carried failure

/-- From related states the second run comes to what the first comes to. -/
def Follows (R : σ → τ → Prop) (carried : Error → Prop) (work : ExceptT Error (StateM σ) α)
    (work' : ExceptT Error (StateM τ) α) : Prop :=
  ∀ s t, R s t → ∀ result s', work.run.run s = (result, s') → IsCarried carried result →
    ∃ t', work'.run.run t = (result, t') ∧ R s' t'

namespace Follows

variable {R : σ → τ → Prop} {carried : Error → Prop}

/-- What gives a value and does nothing else follows itself, whatever the states are. -/
theorem pure (a : α) : Follows R carried (pure a) (pure a) := by
  intro s t hR result s' hrun _
  cases hrun
  exact ⟨t, rfl, hR⟩

/-- What fails at once follows itself, whether the failure is carried over or not. -/
theorem throw (failure : Error) :
    Follows R carried (throw failure : ExceptT Error (StateM σ) α) (throw failure) := by
  intro s t hR result s' hrun _
  cases hrun
  exact ⟨t, rfl, hR⟩

/-- Runs of two parts follow each other if the first parts do and, on every value they give, the second
parts do. -/
theorem bind {work : ExceptT Error (StateM σ) α} {work' : ExceptT Error (StateM τ) α}
    {next : α → ExceptT Error (StateM σ) β} {next' : α → ExceptT Error (StateM τ) β}
    (hwork : Follows R carried work work') (hnext : ∀ a, Follows R carried (next a) (next' a)) :
    Follows R carried (work >>= next) (work' >>= next') := by
  intro s t hR result s' hrun hcarried
  cases hfirst : work.run.run s with
  | mk outcome s₁ =>
    cases outcome with
    | ok a =>
      rw [run_bind_ok hfirst] at hrun
      obtain ⟨t₁, hfirst', hR₁⟩ := hwork s t hR _ _ hfirst trivial
      rw [run_bind_ok hfirst']
      exact hnext a s₁ t₁ hR₁ result s' hrun hcarried
    | error failure =>
      rw [run_bind_error hfirst] at hrun
      cases hrun
      obtain ⟨t₁, hfirst', hR₁⟩ := hwork s t hR _ _ hfirst hcarried
      exact ⟨t₁, run_bind_error hfirst', hR₁⟩

/-- Runs that look at their states follow each other if they do whatever related states they see. -/
theorem get_bind {next : σ → ExceptT Error (StateM σ) β} {next' : τ → ExceptT Error (StateM τ) β}
    (h : ∀ s t, R s t → Follows R carried (next s) (next' t)) :
    Follows R carried (get >>= next) (get >>= next') := by
  intro s t hR result s' hrun hcarried
  rw [run_bind_ok run_get] at hrun ⊢
  exact h s t hR s t hR result s' hrun hcarried

/-- Runs that change their states follow each other if the states stay related, and nothing can fail
there. -/
theorem modify {f : σ → σ} {g : τ → τ} (h : ∀ s t, R s t → R (f s) (g t)) :
    Follows R carried (modify f : ExceptT Error (StateM σ) PUnit) (modify g) := by
  intro s t hR result s' hrun _
  cases hrun
  exact ⟨g t, rfl, h s t hR⟩

end Follows

/-! ## What is made of recorded bytes -/

/-- A result is carried over: unless it is a failure that need not be, the other one is the same. -/
def Carries (carried : Error → Prop) (result result' : Except FormatError α) : Prop :=
  IsCarried carried (result.mapError Error.format) → result' = result

/-- Results of two steps are carried over if the first is, and the second is on every value. -/
theorem Carries.bind {carried : Error → Prop} {result result' : Except FormatError α}
    {next next' : α → Except FormatError β} (hresult : Carries carried result result')
    (hnext : ∀ a, Carries carried (next a) (next' a)) :
    Carries carried (result >>= next) (result' >>= next') := by
  intro hcarried
  cases result with
  | ok a =>
    rw [hresult trivial]
    exact hnext a hcarried
  | error cause =>
    rw [hresult hcarried]
    rfl

/-- Recorded bytes are made sense of on both sides as far as that is carried over. -/
theorem Carries.follows_liftM {δ ε : Type} {R : SectorSource δ → SectorSource ε → Prop}
    {carried : Error → Prop} {result result' : Except FormatError α}
    (h : Carries carried result result') :
    Follows R carried (liftM result : SourceM δ α) (liftM result' : SourceM ε α) := by
  intro s t hR outcome s' hrun hcarried
  rw [run_liftM_format] at hrun
  cases hrun
  exact ⟨t, by rw [run_liftM_format, h hcarried], hR⟩

/-- A fault of recorded bytes is the same on both sides, as making sense of bytes does not touch the
sources. -/
theorem Follows.liftM {δ ε : Type} {R : SectorSource δ → SectorSource ε → Prop}
    {carried : Error → Prop} (result : Except FormatError α) :
    Follows R carried (liftM result : SourceM δ α) (liftM result : SourceM ε α) :=
  Carries.follows_liftM fun _ => rfl

/-! ## Runs that cannot be told apart -/

/-- From related states both runs come to the same, in related states again. -/
def Agrees (R : σ → τ → Prop) (work : StateM σ α) (work' : StateM τ α) : Prop :=
  ∀ s t, R s t → (work.run s).1 = (work'.run t).1 ∧ R (work.run s).2 (work'.run t).2

namespace Agrees

variable {R : σ → τ → Prop} {carried : Error → Prop}

theorem pure (a : α) : Agrees R (pure a) (pure a) := fun _ _ hR => ⟨rfl, hR⟩

/-- Work in two parts agrees if the first parts do, and the second parts do on every value. -/
theorem bind {work : StateM σ α} {work' : StateM τ α} {next : α → StateM σ β}
    {next' : α → StateM τ β} (hwork : Agrees R work work')
    (hnext : ∀ a, Agrees R (next a) (next' a)) : Agrees R (work >>= next) (work' >>= next') := by
  intro s t hR
  obtain ⟨hsame, hR'⟩ := hwork s t hR
  have hrun : (work >>= next).run s = (next (work.run s).1).run (work.run s).2 := rfl
  have hrun' : (work' >>= next').run t = (next' (work'.run t).1).run (work'.run t).2 := rfl
  rw [hrun, hrun', ← hsame]
  exact hnext _ _ _ hR'

/-- Work that looks at the state agrees if it does on every pair of states that are related. -/
theorem get_bind {next : σ → StateM σ β} {next' : τ → StateM τ β}
    (h : ∀ s t, R s t → Agrees R (next s) (next' t)) : Agrees R (get >>= next) (get >>= next') :=
  fun s t hR => h s t hR s t hR

/-- Where all failures are carried over, two runs that follow each other cannot be told apart. -/
theorem of_follows {work : ExceptT Error (StateM σ) α} {work' : ExceptT Error (StateM τ) α}
    (h : Follows R (fun _ => True) work work') : Agrees R work.run work'.run := by
  intro s t hR
  have hcarried : IsCarried (fun _ => True) (work.run.run s).1 := by
    cases (work.run.run s).1 <;> trivial
  obtain ⟨t', hrun, hR'⟩ := h s t hR _ _ rfl hcarried
  rw [hrun]
  exact ⟨rfl, hR'⟩

/-- Runs that cannot be told apart follow each other, whichever failures are carried over. -/
theorem follows {work : ExceptT Error (StateM σ) α} {work' : ExceptT Error (StateM τ) α}
    (h : Agrees R work.run work'.run) : Follows R carried work work' := by
  intro s t hR result s' hrun _
  obtain ⟨hsame, hR'⟩ := h s t hR
  rw [hrun] at hsame hR'
  exact ⟨_, Prod.ext hsame.symm rfl, hR'⟩

end Agrees

/-- Work that cannot fail, as a part of work that can: if it agrees, it follows. -/
theorem Agrees.liftState {R : σ → τ → Prop} {carried : Error → Prop} {work : StateM σ α}
    {work' : StateM τ α} (h : Agrees R work work') :
    Follows R carried (liftM work : ExceptT Error (StateM σ) α) (liftM work') := by
  intro s t hR result s' hrun _
  obtain ⟨hsame, hR'⟩ := h s t hR
  cases (run_liftState rfl).symm.trans hrun
  exact ⟨_, run_liftState (Prod.ext hsame.symm rfl), hR'⟩

end Ecma119
