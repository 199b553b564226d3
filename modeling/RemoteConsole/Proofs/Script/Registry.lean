import RemoteConsole.Proofs.Assoc
import RemoteConsole.Script.Registry

/-!
# The fingerprint mirror

Recording puts entries into the mirror and leaves all others as they are. In a
registry that was filled by inserting, a fragment is found under its own name.
-/

namespace RemoteConsole.Registry

open Script (Fragment)

def Named (r : Registry) : Prop := ∀ (name : String) (f : Fragment), r.get? name = some f → f.name = name

theorem named_empty (caching : Bool) : (empty caching).Named := by
  intro name f h
  cases h

theorem Named.insert {r : Registry} (h : r.Named) (f : Fragment) : (r.insert f).Named := by
  intro name g hg
  by_cases hname : name = f.name
  · subst hname
    have hself : (r.insert f).get? f.name = some f := Assoc.get?_put_self f.name f r.fragments
    rw [hself] at hg
    cases hg
    rfl
  · have hother : (r.insert f).get? name = r.get? name := Assoc.get?_put_ne hname f r.fragments
    exact h name g (hother ▸ hg)

theorem mem_record {e : String × String} : ∀ {entries : List (String × String)} {r : Registry},
    e ∈ (r.record entries).mirror → e ∈ entries ∨ e ∈ r.mirror
  | [], _, h => .inr h
  | (n, v) :: entries, r, h => by
    have hrest : e ∈ (({ r with mirror := Assoc.putOrdered n v r.mirror } : Registry).record entries).mirror := h
    rcases mem_record hrest with h | h
    · exact .inl (by simp [h])
    · rcases Assoc.mem_putOrdered h with h | h
      · exact .inl (by simp [h])
      · exact .inr h

theorem get?_record (hash : String → String) {name : String} : ∀ {entries : List (String × String)} {r : Registry},
    (∀ e ∈ entries, e.2 = hash e.1) → Assoc.get? name (r.record entries).mirror =
      if name ∈ Assoc.keys entries then some (hash name) else Assoc.get? name r.mirror
  | [], _, _ => rfl
  | (n, v) :: entries, r, h => by
    have hv : v = hash n := h (n, v) (by simp)
    have hrest := @get?_record hash name entries { r with mirror := Assoc.putOrdered n v r.mirror }
      fun e he => h e (by simp [he])
    have hcons : r.record ((n, v) :: entries) =
      ({ r with mirror := Assoc.putOrdered n v r.mirror } : Registry).record entries := rfl
    rw [hcons, hrest]
    by_cases hname : name = n
    · subst hname
      simp only [Assoc.keys_cons, List.mem_cons, true_or, if_true, Assoc.get?_putOrdered_self, hv, ite_self]
    · simp only [Assoc.keys_cons, List.mem_cons, hname, false_or, Assoc.get?_putOrdered_ne hname]

theorem isOutdated_eq_false {r : Registry} {f : Fragment} :
    r.isOutdated f = false ↔ Assoc.get? f.name r.mirror = some f.hash := by
  simp [isOutdated]

end RemoteConsole.Registry
