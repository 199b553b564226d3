import RemoteConsole.Files.Tree
import RemoteConsole.Proofs.Assoc

/-!
# Well-formed file trees

A well-formed tree has in each directory names that can stand on a path, each once and in order; every
change keeps it so. There a path with one more name leads to the entry of that name.
-/

namespace RemoteConsole

namespace Text

variable {sep : Char → Bool}

theorem splitAt_append {c : Char} (hc : sep c = true) : ∀ s t : List Char,
    splitAt sep (s ++ c :: t) = splitAt sep s ++ splitAt sep t
  | [], t => by simp [splitAt, hc]
  | d :: s, t => by
    rw [List.cons_append, splitAt, splitAt, splitAt_append hc s t]
    by_cases hd : sep d = true
    · simp [hd]
    · simp only [hd]
      cases h : splitAt sep s with
      | nil => exact absurd h (splitAt_ne_nil sep s)
      | cons piece pieces => rfl

theorem splitAt_of_none : ∀ s : List Char, (∀ c ∈ s, sep c = false) → splitAt sep s = [s]
  | [], _ => rfl
  | c :: s, h => by
    rw [splitAt, splitAt_of_none s fun d hd => h d (by simp [hd])]
    simp [h c (by simp)]

theorem mem_splitAt : ∀ {s piece : List Char}, piece ∈ splitAt sep s → ∀ c ∈ piece, sep c = false
  | [], piece, h, c, hc => by
    simp only [splitAt, List.mem_singleton] at h
    simp [h] at hc
  | d :: s, piece, h, c, hc => by
    have ih : ∀ piece ∈ splitAt sep s, ∀ c ∈ piece, sep c = false := fun piece h => mem_splitAt h
    rw [splitAt] at h
    by_cases hd : sep d = true
    · simp only [hd, if_true, List.mem_cons] at h
      rcases h with rfl | h
      · simp at hc
      · exact ih piece h c hc
    · cases hs : splitAt sep s with
      | nil => exact absurd hs (splitAt_ne_nil sep s)
      | cons first pieces =>
        simp only [hd, hs] at h
        rw [hs] at ih
        rcases List.mem_cons.mp h with rfl | h
        · rcases List.mem_cons.mp hc with rfl | hc
          · simpa using hd
          · exact ih first (by simp) c hc
        · exact ih piece (by simp [h]) c hc

end Text

namespace FileTree

/-! ## Names on a path -/

def IsName (name : String) : Prop := name ≠ "" ∧ name ≠ "." ∧ name ≠ ".." ∧ '/' ∉ name.toList

instance (name : String) : Decidable (IsName name) :=
  inferInstanceAs (Decidable (name ≠ "" ∧ name ≠ "." ∧ name ≠ ".." ∧ '/' ∉ name.toList))

/-- One piece of a path: the names so far, the last one first, after it. -/
def walk (back : List String) (piece : List Char) : List String :=
  if piece.isEmpty || piece == ['.'] then back
  else if piece == ['.', '.'] then back.tail
  else String.ofList piece :: back

theorem segments_eq (path : String) :
    segments path = ((Text.splitAt (· == '/') path.toList).foldl walk []).reverse := rfl

theorem walk_name {name : String} (h : IsName name) (back : List String) : walk back name.toList = name :: back := by
  obtain ⟨hempty, hdot, hdots, -⟩ := h
  have hne : ∀ s : String, name ≠ s → name.toList ≠ s.toList := fun s hs e => hs (String.toList_inj.mp e)
  have h1 : name.toList ≠ [] := hne "" hempty
  have h2 : name.toList ≠ ['.'] := hne "." hdot
  have h3 : name.toList ≠ ['.', '.'] := hne ".." hdots
  simp [walk, h1, h2, h3]

theorem isName_walk {back : List String} {piece : List Char} (hpiece : '/' ∉ piece)
    (h : ∀ name ∈ back, IsName name) : ∀ name ∈ walk back piece, IsName name := by
  intro name hname
  unfold walk at hname
  split at hname
  · exact h name hname
  · rename_i hdot
    split at hname
    · exact h name (List.mem_of_mem_tail hname)
    · rename_i hdots
      rcases List.mem_cons.mp hname with rfl | hname
      · simp only [Bool.or_eq_true, List.isEmpty_iff, beq_iff_eq, not_or] at hdot hdots
        have hne : ∀ s : String, piece ≠ s.toList → String.ofList piece ≠ s := by
          rintro s hs rfl
          exact hs String.toList_ofList.symm
        exact ⟨hne "" hdot.1, hne "." hdot.2, hne ".." hdots, by rwa [String.toList_ofList]⟩
      · exact h name hname

theorem isName_segments (path : String) : ∀ name ∈ segments path, IsName name := by
  have hfold : ∀ (pieces : List (List Char)) (back : List String), (∀ piece ∈ pieces, '/' ∉ piece) →
      (∀ name ∈ back, IsName name) → ∀ name ∈ pieces.foldl walk back, IsName name := by
    intro pieces
    induction pieces with
    | nil => exact fun _ _ h => h
    | cons piece pieces ih =>
      intro back hpieces hback
      exact ih (walk back piece) (fun p hp => hpieces p (by simp [hp])) (isName_walk (hpieces piece (by simp)) hback)
  intro name hname
  rw [segments_eq, List.mem_reverse] at hname
  refine hfold _ [] (fun piece hpiece hslash => ?_) (by simp) name hname
  simpa using Text.mem_splitAt hpiece '/' hslash

theorem segments_join {name : String} (h : IsName name) (path : String) :
    segments (join path name) = segments path ++ [name] := by
  have hname : Text.splitAt (· == '/') name.toList = [name.toList] := by
    refine Text.splitAt_of_none _ fun c hc => ?_
    simpa using fun e : c = '/' => h.2.2.2 (e ▸ hc)
  have hslash : ∀ front : List Char, (Text.splitAt (· == '/') (front ++ '/' :: name.toList)).foldl walk [] =
      name :: (Text.splitAt (· == '/') front).foldl walk [] := by
    intro front
    rw [Text.splitAt_append (by decide), hname, List.foldl_append, List.foldl_cons, List.foldl_nil, walk_name h]
  rw [segments_eq, segments_eq, ← List.reverse_cons]
  refine congrArg List.reverse ?_
  unfold join
  split
  · rename_i hend
    rw [String.toList_append]
    rcases List.eq_nil_or_concat path.toList with hnil | ⟨front, c, hpath⟩
    · rw [hnil, List.nil_append, hname, List.foldl_cons, List.foldl_nil, walk_name h]
      rfl
    -- The last slash is there already, and the empty piece behind it goes nowhere.
    · rw [List.concat_eq_append] at hpath
      have hc : c = '/' := by
        have hne : path.isEmpty = false := by
          cases he : path.isEmpty with
          | false => rfl
          | true =>
            rw [String.isEmpty_iff.mp he] at hpath
            simp at hpath
        rw [hne, hpath] at hend
        simpa using hend
      subst hc
      rw [hpath, List.append_assoc, List.singleton_append, hslash front, Text.splitAt_append (by decide), List.foldl_append]
      rfl
  · have hpath : (s!"{path}/{name}").toList = path.toList ++ '/' :: name.toList := by
      show (path ++ "/" ++ name).toList = _
      rw [String.toList_append, String.toList_append, List.append_assoc]
      rfl
    rw [hpath, hslash path.toList]

/-! ## Well-formed trees -/

inductive WellFormed : FileTree → Prop where
  | file (bytes : List UInt8) : WellFormed (file bytes)
  | directory {entries : List (String × FileTree)} (ordered : (Assoc.keys entries).Pairwise (· < ·))
      (named : ∀ name ∈ Assoc.keys entries, IsName name) (below : ∀ e ∈ entries, WellFormed e.2) :
      WellFormed (directory entries)

theorem wellFormed_empty : empty.WellFormed := .directory .nil (by simp) (by simp)

theorem WellFormed.nodup {entries : List (String × FileTree)} (h : (FileTree.directory entries).WellFormed) :
    (Assoc.keys entries).Nodup := by
  cases h with
  | directory ordered named below => exact ordered.imp fun hlt => String.ne_of_lt hlt

theorem WellFormed.put {entries : List (String × FileTree)} {name : String} {t : FileTree}
    (h : (FileTree.directory entries).WellFormed) (hname : IsName name) (ht : t.WellFormed) :
    (FileTree.directory (Assoc.putOrdered name t entries)).WellFormed := by
  cases h with
  | directory ordered named below =>
    refine .directory (Assoc.pairwise_putOrdered ordered) (fun other ho => ?_) (fun e he => ?_)
    · rcases Assoc.mem_keys_putOrdered ho with rfl | ho
      · exact hname
      · exact named other ho
    · rcases Assoc.mem_putOrdered he with rfl | he
      · exact ht
      · exact below e he

theorem WellFormed.get? {entries : List (String × FileTree)} {name : String} {t : FileTree}
    (h : (FileTree.directory entries).WellFormed) (ht : Assoc.get? name entries = some t) : t.WellFormed := by
  cases h with
  | directory ordered named below => exact below (name, t) (Assoc.mem_of_get? ht)

theorem WellFormed.putAt {new : FileTree} (hnew : new.WellFormed) : ∀ {names : List String} {t : FileTree},
    (∀ name ∈ names, IsName name) → t.WellFormed → (putAt names new t).WellFormed
  | [], _, _, _ => hnew
  | name :: names, t, hnames, ht => by
    obtain ⟨hname, hnames⟩ := List.forall_mem_cons.mp hnames
    have hbelow : ∀ {entries : List (String × FileTree)}, (FileTree.directory entries).WellFormed →
        ((Assoc.get? name entries).getD empty).WellFormed := by
      intro entries h
      cases hget : Assoc.get? name entries with
      | none => exact wellFormed_empty
      | some child => exact h.get? hget
    cases t with
    | file bytes => exact wellFormed_empty.put hname (hnew.putAt hnames (hbelow wellFormed_empty))
    | directory entries => exact ht.put hname (hnew.putAt hnames (hbelow ht))

theorem WellFormed.removeAt : ∀ {names : List String} {t : FileTree}, (∀ name ∈ names, IsName name) →
    t.WellFormed → (removeAt names t).WellFormed
  | [], _, _, _ => wellFormed_empty
  | [_], .file bytes, _, _ => .file bytes
  | [name], .directory entries, _, .directory ordered named below => by
    have hsub : (Assoc.erase name entries).Sublist entries := Assoc.erase_sublist name entries
    have hkeys : (Assoc.keys (Assoc.erase name entries)).Sublist (Assoc.keys entries) := hsub.map _
    exact .directory (ordered.sublist hkeys) (fun n hn => named n (hkeys.subset hn)) fun e he => below e (hsub.subset he)
  | _ :: _ :: _, .file bytes, _, _ => .file bytes
  | name :: next :: names, .directory entries, hnames, ht => by
    obtain ⟨hname, hnames⟩ := List.forall_mem_cons.mp hnames
    rw [FileTree.removeAt]
    · cases hget : Assoc.get? name entries with
      | none => exact ht
      | some child => exact ht.put hname ((ht.get? hget).removeAt hnames)
    · simp

theorem WellFormed.write {t : FileTree} (h : t.WellFormed) (path : String) (bytes : List UInt8) :
    (t.write path bytes).WellFormed := .putAt (.file bytes) (isName_segments path) h

theorem WellFormed.makeDirectory {t : FileTree} (h : t.WellFormed) (path : String) :
    (t.makeDirectory path).WellFormed := by
  unfold FileTree.makeDirectory
  split
  · exact h
  · exact .putAt wellFormed_empty (isName_segments path) h

theorem WellFormed.remove {t : FileTree} (h : t.WellFormed) (path : String) : (t.remove path).WellFormed :=
  h.removeAt (isName_segments path)

/-! ## Looking up -/

theorem find?_append : ∀ (names more : List String) (t : FileTree),
    t.find? (names ++ more) = (t.find? names).bind (find? more)
  | [], _, _ => rfl
  | _ :: _, _, file _ => rfl
  | name :: names, more, directory entries => by
    rw [List.cons_append, find?, find?, Option.bind_assoc]
    exact congrArg _ (funext fun t => find?_append names more t)

theorem at?_join {name : String} (h : IsName name) (path : String) (t : FileTree) :
    t.at? (join path name) = Assoc.get? name (t.entriesAt path) := by
  rw [at?, segments_join h, find?_append, entriesAt, at?]
  cases t.find? (segments path) with
  | none => rfl
  | some found =>
    cases found with
    | file bytes => rfl
    | directory entries =>
      simp only [Option.bind_some, find?]
      cases Assoc.get? name entries with
      | none => rfl
      | some child => rfl

theorem WellFormed.find? : ∀ {names : List String} {t found : FileTree}, t.WellFormed →
    t.find? names = some found → found.WellFormed
  | [], _, _, h, hfound => by
    cases hfound
    exact h
  | _ :: _, .file _, _, _, hfound => by cases hfound
  | name :: names, .directory entries, found, h, hfound => by
    rw [FileTree.find?] at hfound
    obtain ⟨child, hget, hfound⟩ := Option.bind_eq_some_iff.mp hfound
    exact (h.get? hget).find? hfound

theorem WellFormed.entriesAt {t : FileTree} (h : t.WellFormed) (path : String) :
    (FileTree.directory (t.entriesAt path)).WellFormed := by
  unfold FileTree.entriesAt
  split
  · rename_i entries hfound
    exact WellFormed.find? h hfound
  · exact wellFormed_empty

theorem mem_entriesAt {t child : FileTree} (h : t.WellFormed) {path name : String} :
    (name, child) ∈ t.entriesAt path ↔ IsName name ∧ t.at? (join path name) = some child := by
  have hentries := h.entriesAt path
  constructor
  · intro hmem
    have hname : IsName name := by
      cases hentries with
      | directory ordered named below => exact named name (Assoc.mem_keys.mpr ⟨child, hmem⟩)
    exact ⟨hname, by rw [at?_join hname, Assoc.get?_of_mem hentries.nodup hmem]⟩
  · rintro ⟨hname, hat⟩
    rw [at?_join hname] at hat
    exact Assoc.mem_of_get? hat

theorem mem_filesAt {t : FileTree} (h : t.WellFormed) {path name : String} {bytes : List UInt8} :
    (name, bytes) ∈ t.filesAt path ↔ IsName name ∧ t.at? (join path name) = some (file bytes) := by
  rw [← mem_entriesAt h, filesAt, List.mem_filterMap]
  constructor
  · rintro ⟨⟨n, child⟩, hmem, hfile⟩
    cases child with
    | file b =>
      cases hfile
      exact hmem
    | directory entries => cases hfile
  · intro hmem
    exact ⟨_, hmem, rfl⟩

theorem mem_directoriesAt {t child : FileTree} (h : t.WellFormed) {path name : String} :
    (name, child) ∈ t.directoriesAt path ↔
      IsName name ∧ t.at? (join path name) = some child ∧ child.isDirectory = true := by
  rw [directoriesAt, List.mem_filter, mem_entriesAt h, and_assoc]

theorem isDirectory_of_at?_join {t child : FileTree} {path name : String} (hname : IsName name)
    (h : t.at? (join path name) = some child) : ∃ parent, t.at? path = some parent ∧ parent.isDirectory = true := by
  rw [at?_join hname, entriesAt] at h
  split at h
  · rename_i entries hparent
    exact ⟨_, hparent, rfl⟩
  · cases h

theorem nodup_filesAt {t : FileTree} (h : t.WellFormed) (path : String) : (Assoc.keys (t.filesAt path)).Nodup := by
  have hsub : (Assoc.keys (t.filesAt path)).Sublist (Assoc.keys (t.entriesAt path)) := by
    unfold filesAt
    generalize t.entriesAt path = entries
    induction entries with
    | nil => exact .slnil
    | cons e entries ih =>
      obtain ⟨name, child⟩ := e
      cases child with
      | file bytes => exact ih.cons_cons name
      | directory below => exact ih.cons name
  exact (h.entriesAt path).nodup.sublist hsub

theorem nodup_directoriesAt {t : FileTree} (h : t.WellFormed) (path : String) :
    (Assoc.keys (t.directoriesAt path)).Nodup :=
  (h.entriesAt path).nodup.sublist (List.filter_sublist.map _)

end FileTree

/-! ## Stems and extensions -/

theorem fileStem_cases (name : String) : (fileStem name = name ∧ fileExtension? name = none) ∨
    ∃ extension, fileExtension? name = some extension ∧ name = fileStem name ++ "." ++ extension := by
  have hsplit := List.takeWhile_append_dropWhile (p := (· != '.')) (l := name.toList.reverse)
  unfold fileStem fileExtension? splitExtension
  match hdrop : name.toList.reverse.dropWhile (· != '.') with
  | [] =>
    simp only [hdrop]
    exact .inl ⟨trivial, trivial⟩
  | [_] =>
    simp only [hdrop]
    exact .inl ⟨trivial, trivial⟩
  | dot :: c :: stem =>
    have hdot : dot = '.' := by
      have := List.head_dropWhile_not (· != '.') (l := name.toList.reverse) (by rw [hdrop]; simp)
      simpa [hdrop] using this
    simp only [hdrop]
    refine .inr ⟨_, rfl, String.toList_inj.mp ?_⟩
    rw [hdrop, hdot] at hsplit
    have hname := congrArg List.reverse hsplit
    rw [List.reverse_reverse] at hname
    refine Eq.trans hname.symm ?_
    simp

theorem name_eq_of_extension {name extension : String} (h : fileExtension? name = some extension) :
    name = fileStem name ++ "." ++ extension := by
  rcases fileStem_cases name with ⟨-, hnone⟩ | ⟨other, hother, hname⟩
  · rw [hnone] at h
    cases h
  · rw [hother] at h
    cases h
    exact hname

theorem length_fileStem_le (name : String) : (fileStem name).length ≤ name.length := by
  rcases fileStem_cases name with ⟨hstem, -⟩ | ⟨extension, -, hname⟩
  · exact Nat.le_of_eq (congrArg String.length hstem)
  · have := congrArg String.length hname
    rw [String.length_append, String.length_append] at this
    omega

theorem length_fileStem_eq {name : String} :
    (fileStem name).length = name.length ↔ fileExtension? name = none := by
  rcases fileStem_cases name with ⟨hstem, hnone⟩ | ⟨extension, hsome, hname⟩
  · simp [hstem, hnone]
  · have hlength := congrArg String.length hname
    have hdot : (".": String).length = 1 := rfl
    rw [String.length_append, String.length_append, hdot] at hlength
    simp only [hsome, reduceCtorEq, iff_false]
    omega

theorem slash_notMem_fileStem {name : String} (h : '/' ∉ name.toList) : '/' ∉ (fileStem name).toList := by
  rcases fileStem_cases name with ⟨hstem, -⟩ | ⟨extension, -, hname⟩
  · rwa [hstem]
  · intro hmem
    refine h ?_
    rw [hname, String.toList_append, String.toList_append]
    simp [hmem]

end RemoteConsole
