import Mathlib.Data.List.Induction
import RemoteConsole.Assoc

/-!
# Association lists with distinct keys

Entries under new keys are put at the end, so pairs with distinct keys are kept
as they are, and whatever the pairs, the keys of what they make are distinct.
-/

namespace RemoteConsole.Assoc

variable {α β : Type}

@[simp] theorem keys_nil : keys ([] : List (α × β)) = [] := rfl

@[simp] theorem keys_cons (e : α × β) (l : List (α × β)) : keys (e :: l) = e.1 :: keys l := rfl

@[simp] theorem keys_append (l m : List (α × β)) : keys (l ++ m) = keys l ++ keys m := List.map_append

theorem mem_keys {k : α} {l : List (α × β)} : k ∈ keys l ↔ ∃ v, (k, v) ∈ l := by
  simp [keys]

variable [DecidableEq α]

theorem get?_eq_none {k : α} : ∀ {l : List (α × β)}, get? k l = none ↔ k ∉ keys l
  | [] => by simp [get?]
  | (j, v) :: l => by
    by_cases h : j = k
    · simp [get?, h]
    · simp [get?, h, Ne.symm h, get?_eq_none (l := l)]

theorem mem_of_get? {k : α} {v : β} : ∀ {l : List (α × β)}, get? k l = some v → (k, v) ∈ l
  | [], h => by simp [get?] at h
  | (j, w) :: l, h => by
    by_cases hj : j = k
    · simp only [get?, hj, if_true, Option.some.injEq] at h; simp [hj, h]
    · simp only [get?, hj, if_false] at h; simp [mem_of_get? h]

theorem put_new {k : α} (v : β) : ∀ {l : List (α × β)}, k ∉ keys l → put k v l = l ++ [(k, v)]
  | [], _ => rfl
  | (j, w) :: l, h => by
    simp only [keys_cons, List.mem_cons, not_or] at h
    rw [put, if_neg (Ne.symm h.1), put_new v h.2]; rfl

theorem mem_put {k : α} {v : β} {e : α × β} : ∀ {l : List (α × β)}, e ∈ put k v l → e = (k, v) ∨ e ∈ l
  | [], h => .inl (by simpa [put] using h)
  | (j, w) :: l, h => by
    unfold put at h
    split at h
    · rcases List.mem_cons.mp h with h | h
      · exact .inl h
      · exact .inr (by simp [h])
    · rcases List.mem_cons.mp h with h | h
      · exact .inr (by simp [h])
      · rcases mem_put h with h | h
        · exact .inl h
        · exact .inr (by simp [h])

theorem mem_keys_put {k j : α} {v : β} {l : List (α × β)} : j ∈ keys (put k v l) ↔ j = k ∨ j ∈ keys l := by
  rw [keys_put]
  by_cases h : k ∈ keys l
  · rw [if_pos h]
    constructor
    · exact .inr
    · rintro (rfl | hj)
      · exact h
      · exact hj
  · rw [if_neg h, List.mem_append, List.mem_singleton, or_comm]

theorem put_ne_nil (k : α) (v : β) (l : List (α × β)) : put k v l ≠ [] := by
  cases l with
  | nil => simp [put]
  | cons e l => unfold put; split <;> simp

theorem nodup_put {k : α} (v : β) {l : List (α × β)} (h : (keys l).Nodup) : (keys (put k v l)).Nodup := by
  rw [keys_put]
  split
  · exact h
  · rename_i hk
    exact List.nodup_append.mpr ⟨h, by simp, by simpa using fun a ha (e : a = k) => hk (e ▸ ha)⟩

theorem map_put {γ : Type} (f : β → γ) (k : α) (v : β) : ∀ l : List (α × β),
    (put k v l).map (fun e => (e.1, f e.2)) = put k (f v) (l.map fun e => (e.1, f e.2))
  | [] => rfl
  | (j, w) :: l => by
    rw [List.map_cons, put, put]
    by_cases hj : j = k
    · rw [if_pos hj, if_pos hj]
      rfl
    · rw [if_neg hj, if_neg hj, List.map_cons, map_put f k v l]

theorem get?_erase_ne {k j : α} (h : k ≠ j) : ∀ (l : List (α × β)), get? k (erase j l) = get? k l
  | [] => rfl
  | (i, v) :: l => by
    by_cases hi : i = j
    · subst hi
      rw [erase, if_pos rfl, get?, if_neg (Ne.symm h)]
    · rw [erase, if_neg hi, get?, get?, get?_erase_ne h l]

theorem get?_of_mem {k : α} {v : β} : ∀ {l : List (α × β)}, (keys l).Nodup → (k, v) ∈ l → get? k l = some v
  | (j, w) :: l, hn, h => by
    rw [keys_cons, List.nodup_cons] at hn
    rcases List.mem_cons.mp h with h | h
    · cases h; simp [get?]
    · have hne : j ≠ k := fun e => hn.1 (e ▸ mem_keys.mpr ⟨v, h⟩)
      rw [get?, if_neg hne, get?_of_mem hn.2 h]

/-! ## Many entries -/

theorem putAll_new : ∀ (pairs into : List (α × β)), (keys (into ++ pairs)).Nodup → putAll pairs into = into ++ pairs
  | [], into, _ => by simp [putAll]
  | (k, v) :: pairs, into, h => by
    have hk : k ∉ keys into := by
      rw [keys_append, List.nodup_append] at h
      exact fun hm => h.2.2 k hm k (by simp) rfl
    have hassoc : into ++ (k, v) :: pairs = into ++ [(k, v)] ++ pairs := by simp
    have ih := putAll_new pairs (into ++ [(k, v)]) (by rw [← hassoc]; exact h)
    rw [hassoc, ← ih, ← put_new v hk]
    rfl

theorem ofList_of_nodup {pairs : List (α × β)} (h : (keys pairs).Nodup) : ofList pairs = pairs := by
  rw [ofList, putAll_new pairs [] (by simpa using h)]; simp

theorem nodup_putAll : ∀ (pairs : List (α × β)) {into : List (α × β)}, (keys into).Nodup →
    (keys (putAll pairs into)).Nodup
  | [], _, h => h
  | (_, v) :: pairs, _, h => nodup_putAll pairs (nodup_put v h)

theorem nodup_ofList (pairs : List (α × β)) : (keys (ofList pairs)).Nodup := nodup_putAll pairs (by simp)

theorem mem_putAll {e : α × β} : ∀ (pairs into : List (α × β)), e ∈ putAll pairs into → e ∈ into ∨ e ∈ pairs
  | [], _, h => .inl h
  | (k, v) :: pairs, into, h => by
    rcases mem_putAll pairs (put k v into) h with h | h
    · rcases mem_put h with h | h
      · exact .inr (by simp [h])
      · exact .inl h
    · exact .inr (by simp [h])

theorem mem_of_mem_ofList {e : α × β} {pairs : List (α × β)} (h : e ∈ ofList pairs) : e ∈ pairs := by
  rcases mem_putAll pairs [] h with h | h
  · simp at h
  · exact h

theorem ofList_ne_nil {pairs : List (α × β)} (h : pairs ≠ []) : ofList pairs ≠ [] := by
  have hall : ∀ (pairs : List (α × β)) {into : List (α × β)}, into ≠ [] → putAll pairs into ≠ [] := by
    intro pairs
    induction pairs with
    | nil => exact fun h => h
    | cons e pairs ih => exact fun _ => ih (put_ne_nil _ _ _)
  obtain ⟨e, rest, rfl⟩ := List.exists_cons_of_ne_nil h
  exact hall rest (put_ne_nil e.1 e.2 [])

theorem ofList_append (pairs : List (α × β)) (k : α) (v : β) :
    ofList (pairs ++ [(k, v)]) = put k v (ofList pairs) := by
  rw [ofList, putAll, List.foldl_append]
  rfl

theorem eraseDups_snoc (l : List α) (a : α) :
    (l ++ [a]).eraseDups = if a ∈ l then l.eraseDups else l.eraseDups ++ [a] := by
  rw [List.eraseDups_append]
  by_cases ha : a ∈ l
  · have hremoved : [a].removeAll l = [] := by simp [List.removeAll, ha]
    rw [if_pos ha, hremoved]
    simp
  · have hkept : [a].removeAll l = [a] := by simp [List.removeAll, ha]
    rw [if_neg ha, hkept]
    rfl

theorem keys_ofList (pairs : List (α × β)) : keys (ofList pairs) = (keys pairs).eraseDups := by
  induction pairs using List.reverseRecOn with
  | nil => rfl
  | append_singleton pairs e ih =>
    obtain ⟨k, v⟩ := e
    rw [ofList_append, keys_put, keys_append, ih]
    refine Eq.trans ?_ (eraseDups_snoc (keys pairs) k).symm
    simp only [List.mem_eraseDups]

theorem eraseDups_eq_self {l : List α} : l.eraseDups = l ↔ l.Nodup := by
  have hkeys : keys (l.map fun a => (a, ())) = l := by
    rw [keys, List.map_map]
    exact List.map_id l
  have hdups := keys_ofList (l.map fun a => (a, ()))
  rw [hkeys] at hdups
  constructor
  · intro h
    rw [← h, ← hdups]
    exact nodup_ofList _
  · intro h
    rw [← hdups, ofList_of_nodup (by rwa [hkeys]), hkeys]

theorem get?_ofList (k : α) (pairs : List (α × β)) : get? k (ofList pairs) = get? k pairs.reverse := by
  induction pairs using List.reverseRecOn with
  | nil => rfl
  | append_singleton pairs e ih =>
    obtain ⟨j, v⟩ := e
    rw [ofList_append, List.reverse_append, List.reverse_singleton, List.singleton_append, get?]
    by_cases hj : j = k
    · rw [if_pos hj, hj, get?_put_self]
    · rw [if_neg hj, get?_put_ne (Ne.symm hj), ih]

theorem get?_map {γ : Type} (key : γ → α) (value : γ → β) (k : α) : ∀ l : List γ,
    get? k (l.map fun a => (key a, value a)) = (l.find? fun a => key a = k).map value
  | [] => rfl
  | a :: l => by
    rw [List.map_cons, get?]
    by_cases ha : key a = k
    · rw [if_pos ha, List.find?_cons_of_pos (by simpa using ha)]
      rfl
    · rw [if_neg ha, List.find?_cons_of_neg (by simpa using ha), get?_map key value k l]

theorem ext_get? : ∀ {l m : List (α × β)}, keys l = keys m → (keys l).Nodup →
    (∀ k, get? k l = get? k m) → l = m
  | [], [], _, _, _ => rfl
  | [], _ :: _, h, _, _ => by cases h
  | _ :: _, [], h, _, _ => by cases h
  | (j, v) :: l, (i, w) :: m, h, hn, hget => by
    obtain ⟨rfl, hkeys⟩ : j = i ∧ keys l = keys m := List.cons.inj h
    obtain ⟨hj, hn⟩ := List.nodup_cons.mp hn
    have hvalue : v = w := by
      have := hget j
      rw [get?, if_pos rfl, get?, if_pos rfl] at this
      exact Option.some.inj this
    have hrest : ∀ k, get? k l = get? k m := by
      intro k
      by_cases hk : j = k
      · subst hk
        rw [get?_eq_none.mpr hj, get?_eq_none.mpr (hkeys ▸ hj)]
      · have := hget k
        rwa [get?, if_neg hk, get?, if_neg hk] at this
    rw [hvalue, ext_get? hkeys hn hrest]

/-! ## Entries at their place -/

section
variable {γ : Type} {name : String} {value : γ}

theorem get?_putOrdered_self : ∀ (l : List (String × γ)), get? name (putOrdered name value l) = some value
  | [] => by simp [putOrdered, get?]
  | (n, v) :: l => by
    unfold putOrdered
    split
    · simp [get?]
    · rename_i hn
      split
      · simp [get?]
      · rw [get?, if_neg (Ne.symm hn), get?_putOrdered_self l]

theorem get?_putOrdered_ne {other : String} (h : other ≠ name) : ∀ (l : List (String × γ)),
    get? other (putOrdered name value l) = get? other l
  | [] => by simp [putOrdered, get?, Ne.symm h]
  | (n, v) :: l => by
    unfold putOrdered
    split
    · rename_i hn
      subst hn
      rw [get?, get?, if_neg (Ne.symm h), if_neg (Ne.symm h)]
    · split
      · rw [get?, if_neg (Ne.symm h)]
      · rw [get?, get?, get?_putOrdered_ne h l]

theorem mem_putOrdered {e : String × γ} : ∀ {l : List (String × γ)}, e ∈ putOrdered name value l →
    e = (name, value) ∨ e ∈ l
  | [], h => .inl (by simpa [putOrdered] using h)
  | (n, v) :: l, h => by
    unfold putOrdered at h
    split at h
    · rcases List.mem_cons.mp h with h | h
      · exact .inl h
      · exact .inr (by simp [h])
    · split at h
      · rcases List.mem_cons.mp h with h | h
        · exact .inl h
        · exact .inr h
      · rcases List.mem_cons.mp h with h | h
        · exact .inr (by simp [h])
        · rcases mem_putOrdered h with h | h
          · exact .inl h
          · exact .inr (by simp [h])

theorem mem_keys_putOrdered {name other : String} {value : γ} {l : List (String × γ)}
    (h : other ∈ keys (putOrdered name value l)) : other = name ∨ other ∈ keys l := by
  obtain ⟨v, hv⟩ := mem_keys.mp h
  rcases mem_putOrdered hv with hv | hv
  · cases hv
    exact .inl rfl
  · exact .inr (mem_keys.mpr ⟨v, hv⟩)

theorem pairwise_putOrdered {name : String} {value : γ} : ∀ {l : List (String × γ)},
    (keys l).Pairwise (· < ·) → (keys (putOrdered name value l)).Pairwise (· < ·)
  | [], _ => by simp [putOrdered]
  | (n, v) :: l, h => by
    obtain ⟨hn, hl⟩ := List.pairwise_cons.mp h
    unfold putOrdered
    split
    · rename_i he
      rw [keys_cons, he]
      exact h
    · rename_i hne
      split
      · rename_i hlt
        refine List.pairwise_cons.mpr ⟨fun other ho => ?_, h⟩
        rcases List.mem_cons.mp ho with rfl | ho
        · exact hlt
        · exact String.lt_trans hlt (hn other ho)
      · rename_i hnot
        refine List.pairwise_cons.mpr ⟨fun other ho => ?_, pairwise_putOrdered hl⟩
        rcases mem_keys_putOrdered ho with rfl | ho
        · by_cases hlt : n < other
          · exact hlt
          · exact absurd (String.le_antisymm (String.not_lt.mp hlt) (String.not_lt.mp hnot)) hne
        · exact hn other ho

theorem erase_sublist (name : String) : ∀ l : List (String × γ), (erase name l).Sublist l
  | [] => .slnil
  | (n, v) :: l => by
    unfold erase
    split
    · exact List.sublist_cons_self _ _
    · exact (erase_sublist name l).cons_cons _

theorem perm_putOrdered : ∀ {l : List (String × γ)}, name ∉ keys l → (putOrdered name value l).Perm ((name, value) :: l)
  | [], _ => .refl _
  | (n, v) :: l, h => by
    obtain ⟨hne, hl⟩ : name ≠ n ∧ name ∉ keys l := by simpa using h
    rw [putOrdered, if_neg hne]
    split
    · exact .refl _
    · exact ((perm_putOrdered hl).cons _).trans (.swap ..)

theorem ordered_append (l : List (String × γ)) (name : String) (value : γ) :
    ordered (l ++ [(name, value)]) = putOrdered name value (ordered l) := by
  rw [ordered, List.foldl_append]
  rfl

theorem pairwise_ordered (l : List (String × γ)) : (keys (ordered l)).Pairwise (· < ·) := by
  induction l using List.reverseRecOn with
  | nil => exact .nil
  | append_singleton l e ih =>
    rw [ordered_append]
    exact pairwise_putOrdered ih

theorem perm_ordered {l : List (String × γ)} (h : (keys l).Nodup) : (ordered l).Perm l := by
  induction l using List.reverseRecOn with
  | nil => exact .refl _
  | append_singleton l e ih =>
    obtain ⟨name, value⟩ := e
    rw [keys_append, List.nodup_append] at h
    obtain ⟨hl, -, hnew⟩ := h
    have hname : name ∉ keys (ordered l) := by
      rw [keys, ((ih hl).map Prod.fst).mem_iff]
      exact fun hin => hnew name hin name (by simp) rfl
    rw [ordered_append]
    exact (perm_putOrdered hname).trans (((ih hl).cons _).trans (List.perm_append_singleton _ _).symm)

theorem nodup_of_pairwise {l : List (String × γ)} (h : (keys l).Pairwise (· < ·)) : (keys l).Nodup :=
  h.imp String.ne_of_lt

theorem eq_of_perm_of_pairwise {l m : List (String × γ)} (h : l.Perm m) (hl : (keys l).Pairwise (· < ·))
    (hm : (keys m).Pairwise (· < ·)) : l = m := by
  refine List.Perm.eq_of_pairwise ?_ (List.pairwise_map.mp hl) (List.pairwise_map.mp hm) h
  intro e f _ _ hef hfe
  exact absurd hfe (String.lt_asymm hef)

theorem ordered_of_pairwise {l : List (String × γ)} (h : (keys l).Pairwise (· < ·)) : ordered l = l :=
  eq_of_perm_of_pairwise (perm_ordered (nodup_of_pairwise h)) (pairwise_ordered l) h

end

end RemoteConsole.Assoc
