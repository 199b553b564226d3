import RemoteConsole.Action

/-!
# Actions step by step

An action that is bound to another runs on the state that the first one left,
or not at all. What every part of an action preserves, the whole action preserves.
-/

namespace RemoteConsole

def Outcome.error? {α : Type} : Outcome α → Option ControlError
  | error e => some e
  | _ => none

theorem Outcome.error?_eq_some {α : Type} {outcome : Outcome α} {e : ControlError} :
    outcome.error? = some e ↔ outcome = .error e := by
  cases outcome with
  | ok a => exact ⟨nofun, nofun⟩
  | error e' => exact ⟨fun h => congrArg Outcome.error (Option.some.inj h), fun h => congrArg some (Outcome.error.inj h)⟩
  | crash c => exact ⟨nofun, nofun⟩

/-! ## Checks -/

def ControlError.IsRefusal : ControlError → Prop
  | invalidArgument _ _ => True
  | _ => False

section
variable {α β : Type} {E : ControlError → Prop} {Q : α → Prop} {x : Except ControlError α}

/-- What comes out has the one property, and an error the other. -/
def Checked (E : ControlError → Prop) (Q : α → Prop) : Except ControlError α → Prop
  | .ok a => Q a
  | .error e => E e

theorem Checked.bind {R : β → Prop} {f : α → Except ControlError β} (hx : Checked E Q x)
    (hf : ∀ a, Q a → Checked E R (f a)) : Checked E R (x >>= f) := by
  cases x with
  | error e => exact hx
  | ok a => exact hf a hx

theorem Checked.map {R : β → Prop} {f : α → β} (hx : Checked E Q x) (hf : ∀ a, Q a → R (f a)) :
    Checked E R (f <$> x) := by
  cases x with
  | error e => exact hx
  | ok a => exact hf a hx

theorem Checked.mapM {f : α → Except ControlError β} (hf : ∀ a, Checked E (fun _ => True) (f a)) :
    ∀ l : List α, Checked E (fun _ => True) (l.mapM f)
  | [] => trivial
  | a :: l => by
    rw [List.mapM_cons]
    exact (hf a).bind fun _ _ => (mapM hf l).bind fun _ _ => trivial

theorem Checked.error {e : ControlError} (h : Checked E Q x) (hx : x = .error e) : E e := by
  subst hx
  exact h

end

namespace Action

variable {σ τ α β : Type}

theorem eq_ok_of_isOk {outcome : Outcome Unit} (h : outcome.isOk = true) : outcome = .ok () := by
  cases outcome with
  | ok u => rfl
  | error e => cases h
  | crash c => cases h

theorem exists_of_isOk {x : Action σ α} {s : σ} (h : (x s).1.isOk = true) : ∃ a, x s = (.ok a, (x s).2) := by
  cases hx : x s with
  | mk outcome s' =>
    rw [hx] at h
    cases outcome with
    | ok a => exact ⟨a, rfl⟩
    | error e => cases h
    | crash c => cases h

theorem ne_ok_of_isOk {outcome : Outcome α} (h : outcome.isOk = false) (a : α) : outcome ≠ .ok a := by
  rintro rfl
  cases h

theorem bind_ok {x : Action σ α} {f : α → Action σ β} {s s' : σ} {a : α} (h : x s = (.ok a, s')) :
    (x >>= f) s = f a s' := by
  show Action.bind x f s = _
  rw [Action.bind, h]

theorem bind_error {x : Action σ α} {f : α → Action σ β} {s s' : σ} {e : ControlError} (h : x s = (.error e, s')) :
    (x >>= f) s = (.error e, s') := by
  show Action.bind x f s = _
  rw [Action.bind, h]

theorem bind_crash {x : Action σ α} {f : α → Action σ β} {s s' : σ} {c : Crash} (h : x s = (.crash c, s')) :
    (x >>= f) s = (.crash c, s') := by
  show Action.bind x f s = _
  rw [Action.bind, h]

instance : LawfulMonad (Action σ) := by
  refine LawfulMonad.mk' _ (fun x => ?_) (fun _ _ => rfl) (fun x f g => ?_)
  · funext s
    show Action.bind x Action.pure s = x s
    cases hx : x s with
    | mk outcome s' => cases outcome <;> simp only [Action.bind, Action.pure, hx]
  · funext s
    show Action.bind (Action.bind x f) g s = Action.bind x (fun a => Action.bind (f a) g) s
    cases hx : x s with
    | mk outcome s' => cases outcome <;> simp only [Action.bind, hx]

theorem exists_of_bind_ok {x : Action σ α} {f : α → Action σ β} {s s' : σ} {b : β}
    (h : (x >>= f) s = (.ok b, s')) : ∃ a middle, x s = (.ok a, middle) ∧ f a middle = (.ok b, s') := by
  cases hx : x s with
  | mk outcome middle =>
    cases outcome with
    | ok a => exact ⟨a, middle, rfl, (bind_ok hx).symm.trans h⟩
    | error e => rw [bind_error hx] at h; cases h
    | crash c => rw [bind_crash hx] at h; cases h

theorem bind_failed {x : Action σ α} {s s' : σ} {outcome : Outcome α} (h : x s = (outcome, s'))
    (hf : outcome.isOk = false) (f : α → Action σ β) :
    ∃ failure : Outcome β, (x >>= f) s = (failure, s') ∧ failure.isOk = false := by
  cases outcome with
  | ok a => cases hf
  | error e => exact ⟨.error e, bind_error h, rfl⟩
  | crash c => exact ⟨.crash c, bind_crash h, rfl⟩

theorem bind_still {x : Action σ α} {f : α → Action σ β} (hf : ∀ a s, (f a s).2 = s) (s : σ) :
    ((x >>= f) s).2 = (x s).2 := by
  cases hx : x s with
  | mk outcome s' =>
    cases outcome with
    | ok a => rw [bind_ok hx, hf]
    | error e => rw [bind_error hx]
    | crash c => rw [bind_crash hx]

theorem bind_pure_eq (x : Action σ α) (f : α → β) (s : σ) :
    (x >>= fun a => Pure.pure (f a)) s = ((x s).1.map f, (x s).2) := by
  cases hx : x s with
  | mk outcome s' =>
    cases outcome with
    | ok a => exact bind_ok hx
    | error e => exact bind_error hx
    | crash c => exact bind_crash hx

theorem bind_pure_snd (x : Action σ α) (f : α → β) (s : σ) : ((x >>= fun a => Pure.pure (f a)) s).2 = (x s).2 :=
  bind_still (fun _ _ => rfl) s

theorem bind_pure_isOk (x : Action σ α) (f : α → β) (s : σ) :
    ((x >>= fun a => Pure.pure (f a)) s).1.isOk = (x s).1.isOk := by
  cases hx : x s with
  | mk outcome s' =>
    cases outcome with
    | ok a => rw [bind_ok hx]; rfl
    | error e => rw [bind_error hx]; rfl
    | crash c => rw [bind_crash hx]; rfl

theorem lift_ok_bind (a : α) (f : α → Action σ β) (s : σ) : (lift (.ok a) >>= f) s = f a s := rfl

theorem lift_error_bind (e : ControlError) (f : α → Action σ β) (s : σ) : (lift (.error e) >>= f) s = (.error e, s) := rfl

theorem get_bind (f : σ → Action σ β) (s : σ) : (get >>= f) s = f s s := rfl

theorem attempt_bind (x : Action σ α) (f : Outcome α → Action σ β) (s : σ) :
    (attempt x >>= f) s = f (x s).1 (x s).2 := rfl

theorem read_bind (g : σ → α) (f : α → Action σ β) (s : σ) : (read g >>= f) s = f (g s) s := rfl

/-! ## What is preserved -/

/-- What holds of the state before holds of it afterwards, however the action ends. -/
def Preserves (P : σ → Prop) (x : Action σ α) : Prop := ∀ s, P s → P (x s).2

section
variable {P : σ → Prop}

theorem preserves_pure (a : α) : Preserves P (Pure.pure a : Action σ α) := fun _ h => h

theorem preserves_fail (e : ControlError) : Preserves P (fail e : Action σ α) := fun _ h => h

theorem preserves_read (f : σ → α) : Preserves P (read f) := fun _ h => h

theorem preserves_lift (x : Except ControlError α) : Preserves P (lift x : Action σ α) := fun _ h => h

theorem preserves_resume (outcome : Outcome α) : Preserves P (resume outcome) := fun _ h => h

theorem preserves_modify {f : σ → σ} (hf : ∀ s, P s → P (f s)) : Preserves P (modify f) := hf

theorem preserves_attempt {x : Action σ α} (hx : Preserves P x) : Preserves P (attempt x) := hx

theorem preserves_zoom {Q : τ → Prop} {part : τ → σ} {update : σ → τ → τ} (x : Action σ α)
    (hu : ∀ s t, Q t → Q (update s t)) : Preserves Q (zoom part update x) :=
  fun t h => hu _ t h

theorem preserves_bind {x : Action σ α} {f : α → Action σ β} (hx : Preserves P x) (hf : ∀ a, Preserves P (f a)) :
    Preserves P (x >>= f) := by
  intro s hs
  have h := hx s hs
  cases hx : x s with
  | mk outcome s' =>
    rw [hx] at h
    cases outcome with
    | ok a => rw [bind_ok hx]; exact hf a s' h
    | error e => rw [bind_error hx]; exact h
    | crash c => rw [bind_crash hx]; exact h

theorem preserves_forM {f : α → Action σ Unit} (hf : ∀ a, Preserves P (f a)) : ∀ (l : List α), Preserves P (l.forM f)
  | [] => preserves_pure ()
  | a :: l => preserves_bind (hf a) fun _ => preserves_forM hf l

theorem preserves_mapM {f : α → Action σ β} (hf : ∀ a, Preserves P (f a)) : ∀ (l : List α), Preserves P (l.mapM f)
  | [] => preserves_pure []
  | a :: l => by
    rw [List.mapM_cons]
    exact preserves_bind (hf a) fun _ => preserves_bind (preserves_mapM hf l) fun _ => preserves_pure _

end

/-! ## How an action may end -/

/-- The state that is left has the first property; an error has the second, and after a crash the
state has the third. -/
structure Ends (P : σ → Prop) (E : ControlError → Prop) (C : σ → Prop) (r : Outcome α × σ) : Prop where
  keeps : P r.2
  error : ∀ {e}, r.1 = .error e → E e
  crash : r.1.isCrash = true → C r.2

/-- Started with the first property, the action ends with it, and otherwise only as is allowed. -/
def Confined (P : σ → Prop) (E : ControlError → Prop) (C : σ → Prop) (x : Action σ α) : Prop :=
  ∀ s, P s → Ends P E C (x s)

section
variable {P : σ → Prop} {E : ControlError → Prop} {C : σ → Prop}

theorem Ends.ok {a : α} {s : σ} (h : P s) : Ends P E C (.ok a, s) := ⟨h, nofun, nofun⟩

theorem Ends.fail {e : ControlError} {s : σ} (h : P s) (he : E e) : Ends P E C ((.error e, s) : Outcome α × σ) := by
  refine ⟨h, ?_, nofun⟩
  intro e' h'
  cases h'
  exact he

theorem Ends.crashed {c : Crash} {s : σ} (h : P s) (hc : C s) : Ends P E C ((.crash c, s) : Outcome α × σ) :=
  ⟨h, nofun, fun _ => hc⟩

theorem Ends.bind {x : Action σ α} {f : α → Action σ β} {s : σ} (hx : Ends P E C (x s))
    (hf : ∀ a s', x s = (.ok a, s') → P s' → Ends P E C (f a s')) : Ends P E C ((x >>= f) s) := by
  cases h : x s with
  | mk outcome s' =>
    rw [h] at hx
    cases outcome with
    | ok a => rw [bind_ok h]; exact hf a s' h hx.keeps
    | error e => rw [bind_error h]; exact .fail hx.keeps (hx.error rfl)
    | crash c => rw [bind_crash h]; exact .crashed hx.keeps (hx.crash rfl)

theorem Confined.preserves {x : Action σ α} (hx : Confined P E C x) : Preserves P x := fun s h => (hx s h).keeps

theorem Preserves.confined {x : Action σ α} (hx : Preserves P x) : Confined P (fun _ => True) (fun _ => True) x :=
  fun s h => ⟨hx s h, fun _ => trivial, fun _ => trivial⟩

theorem confined_pure (a : α) : Confined P E C (Pure.pure a : Action σ α) := fun _ h => .ok h

theorem confined_get : Confined P E C (get : Action σ σ) := fun _ h => .ok h

theorem confined_read (f : σ → α) : Confined P E C (read f) := fun _ h => .ok h

theorem confined_modify {f : σ → σ} (hf : ∀ s, P s → P (f s)) : Confined P E C (modify f) := fun s h => .ok (hf s h)

theorem confined_fail {e : ControlError} (he : E e) : Confined P E C (fail e : Action σ α) := fun _ h => .fail h he

theorem confined_lift {Q : α → Prop} {x : Except ControlError α} (hx : Checked E Q x) :
    Confined P E C (lift x : Action σ α) := by
  cases x with
  | ok a => exact confined_pure a
  | error e => exact confined_fail hx

theorem confined_bind {x : Action σ α} {f : α → Action σ β} (hx : Confined P E C x)
    (hf : ∀ a, Confined P E C (f a)) : Confined P E C (x >>= f) := by
  intro s h
  apply (hx s h).bind
  intro a s' _ h'
  exact hf a s' h'

theorem confined_attempt_bind {x : Action σ α} {f : Outcome α → Action σ β} (hx : Confined P E C x)
    (hf : ∀ outcome s, Ends P E C (outcome, s) → Ends P E C (f outcome s)) : Confined P E C (attempt x >>= f) := by
  intro s h
  rw [attempt_bind]
  exact hf _ _ (hx s h)

theorem confined_foldlM {f : β → α → Action σ β} (hf : ∀ b a, Confined P E C (f b a)) :
    ∀ (l : List α) (b : β), Confined P E C (l.foldlM f b)
  | [], b => confined_pure b
  | a :: l, b => by
    rw [List.foldlM_cons]
    exact confined_bind (hf b a) (confined_foldlM hf l)

theorem confined_forM {f : α → Action σ Unit} (hf : ∀ a, Confined P E C (f a)) :
    ∀ (l : List α), Confined P E C (l.forM f)
  | [] => confined_pure ()
  | a :: l => confined_bind (hf a) fun _ => confined_forM hf l

end

end Action

end RemoteConsole
