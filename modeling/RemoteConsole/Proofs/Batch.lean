import RemoteConsole.Proofs.Assoc
import RemoteConsole.Proofs.Text.Numeral
import RemoteConsole.Session.Console

/-!
# Tags

A tag is a place in decimal, a low line and a text. The digits end at the first
low line whatever the text is, so commands at different places have different
tags and every command keeps its own reply.
-/

namespace RemoteConsole

namespace Command

open Text

theorem toList_tag (i : Nat) (c : Command) : (c.tag i).toList = natText i ++ '_' :: (c.label.getD c.target).toList := by
  have h : c.tag i = i.repr ++ "_" ++ c.label.getD c.target := rfl
  rw [h, String.toList_append, String.toList_append, Nat.toList_repr, List.append_assoc]
  rfl

theorem place_tag (i : Nat) (c : Command) : digitsValue ((c.tag i).toList.takeWhile Char.isDigit) = i := by
  have hstop : NoDigit ('_' :: (c.label.getD c.target).toList) := by
    intro d hd
    cases hd
    rfl
  rw [toList_tag, takeWhile_digits (digits_natText i) hstop, digitsValue_natText]

theorem tag_inj {i j : Nat} {c d : Command} (h : c.tag i = d.tag j) : i = j := by
  rw [← place_tag i c, h, place_tag]

end Command

/-! ## Entries -/

def Command.tags (queue : List Command) : List String := queue.mapIdx fun i c => c.tag i

theorem map_mapIdx {α β γ : Type} (f : Nat → α → β) (g : β → γ) (l : List α) :
    (l.mapIdx f).map g = l.mapIdx fun i a => g (f i a) := by
  refine List.ext_getElem? fun i => ?_
  rw [List.getElem?_map, List.getElem?_mapIdx, List.getElem?_mapIdx, Option.map_map]
  rfl

theorem nodup_tags (queue : List Command) : (Command.tags queue).Nodup := by
  refine List.pairwise_iff_getElem.mpr fun i j hi hj hij h => ?_
  simp only [Command.tags, List.getElem_mapIdx] at h
  exact Nat.ne_of_lt hij (Command.tag_inj h)

theorem batchEntries_eq (r : Registry) (measured : Bool) (queue : List Command) :
    batchEntries r measured queue = queue.mapIdx fun i c => (c.tag i, r.compileCommand measured c) := by
  refine Assoc.ofList_of_nodup ?_
  rw [Assoc.keys, map_mapIdx]
  exact nodup_tags queue

theorem keys_batchEntries (r : Registry) (measured : Bool) (queue : List Command) :
    Assoc.keys (batchEntries r measured queue) = Command.tags queue := by
  rw [batchEntries_eq, Assoc.keys, map_mapIdx, Command.tags]

theorem texts_batchEntries (r : Registry) (measured : Bool) (queue : List Command) :
    (batchEntries r measured queue).map Prod.snd = queue.map (r.compileCommand measured) := by
  rw [batchEntries_eq, map_mapIdx]
  exact List.ext_getElem? fun i => by rw [List.getElem?_mapIdx, List.getElem?_map]

/-! ## Replies -/

namespace BatchResult

theorem file_ok (reply : String → String) : ∀ (tags : List String) {replies : List (String × String)}
    {results : List (String × Except RemoteError Value)}, (Assoc.keys results ++ tags).Nodup →
    (∀ tag ∈ tags, Assoc.get? tag replies = some (reply tag)) →
      file tags replies results = .ok ⟨results ++ tags.map fun tag => (tag, Reply.decode (reply tag))⟩
  | [], _, results, _, _ => by rw [file, List.map_nil, List.append_nil]
  | tag :: tags, replies, results, hn, h => by
    have hnew : tag ∉ Assoc.keys results := by
      rw [List.nodup_append] at hn
      exact fun hm => hn.2.2 tag hm tag (by simp) rfl
    have htags : tag ∉ tags := by
      rw [List.nodup_append, List.nodup_cons] at hn
      exact hn.2.1.1
    have hrest : ∀ other ∈ tags, Assoc.get? other (Assoc.erase tag replies) = some (reply other) := by
      intro other ho
      have hne : other ≠ tag := by
        rintro rfl
        exact htags ho
      rw [Assoc.get?_erase_ne hne, h other (by simp [ho])]
    have hput := Assoc.put_new (Reply.decode (reply tag)) hnew
    have hn' : (Assoc.keys (results ++ [(tag, Reply.decode (reply tag))]) ++ tags).Nodup := by simpa using hn
    have hhead := h tag (by simp)
    rw [file, hhead]
    simp only
    rw [hput, file_ok reply tags hn' hrest, List.append_assoc]
    rfl

theorem file_missing : ∀ (tags : List String) {replies : List (String × String)}
    {results : List (String × Except RemoteError Value)}, tags.Nodup →
    (∃ tag ∈ tags, Assoc.get? tag replies = none) →
      ∃ tag ∈ tags, Assoc.get? tag replies = none ∧
        file tags replies results = .error (.transport s!"no reply for transaction entry `{tag}`")
  | [], _, _, _, h => by simp at h
  | tag :: tags, replies, results, hn, h => by
    rw [List.nodup_cons] at hn
    have hother : ∀ other ∈ tags, Assoc.get? other (Assoc.erase tag replies) = Assoc.get? other replies := by
      intro other ho
      refine Assoc.get?_erase_ne ?_ replies
      rintro rfl
      exact hn.1 ho
    cases hget : Assoc.get? tag replies with
    | none => exact ⟨tag, by simp, hget, by rw [file, hget]⟩
    | some reply =>
      obtain ⟨missing, hm, hnone⟩ := h
      have hm : missing ∈ tags := by
        rcases List.mem_cons.mp hm with rfl | hm
        · rw [hget] at hnone; cases hnone
        · exact hm
      have ih := @file_missing tags (Assoc.erase tag replies) (Assoc.put tag (Reply.decode reply) results) hn.2
        ⟨missing, hm, by rw [hother missing hm]; exact hnone⟩
      obtain ⟨first, hf, hfnone, hfile⟩ := ih
      refine ⟨first, by simp [hf], by rw [← hother first hf]; exact hfnone, ?_⟩
      rw [file, hget]
      exact hfile

end BatchResult

end RemoteConsole
