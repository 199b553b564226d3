import Mathlib.Data.List.Nodup
import RemoteConsole.Files.Discovery
import RemoteConsole.Proofs.Files.Tree

/-!
# Discovered scripts

Every script file is filed under the stems of its directories and of its own name. Files whose names meet
there share one fragment, with the text of the last; no file is lost if and only if no directory of an owner
or a capability with a script in it has an extension.
-/

namespace RemoteConsole

open Script (Fragment)

/-- A script file: a library, or a script of the capability of an owner. -/
structure ScriptFile where
  place : Option (String × String)
  name : String
  bytes : List UInt8
deriving DecidableEq

namespace ScriptFile

def kind (f : ScriptFile) : Script.Kind := if f.place.isSome then .tool else .library

def path (libraryDir toolsDir : String) (f : ScriptFile) : String :=
  match f.place with
  | none => FileTree.join libraryDir f.name
  | some (owner, capability) => FileTree.join (FileTree.join (FileTree.join toolsDir owner) capability) f.name

def nameUnder (called : String → String) (f : ScriptFile) : String :=
  match f.place with
  | none => fileStem f.name
  | some (owner, capability) => s!"{called owner}/{called capability}/{fileStem f.name}"

def fullName (f : ScriptFile) : String := f.nameUnder id

def fragmentName (f : ScriptFile) : String := f.nameUnder fileStem

def IsReadable (f : ScriptFile) : Prop := (Text.Utf8.decode? f.bytes).isSome = true

instance (f : ScriptFile) : Decidable f.IsReadable := inferInstanceAs (Decidable (_ = true))

def text (f : ScriptFile) : String := String.ofList ((Text.Utf8.decode? f.bytes).getD [])

def fragment (f : ScriptFile) : Fragment := ⟨f.fragmentName, f.kind, f.text⟩

structure IsScript (f : ScriptFile) : Prop where
  named : FileTree.IsName f.name
  extension : fileExtension? f.name = some "lua"
  owned : ∀ owner capability, f.place = some (owner, capability) →
    FileTree.IsName owner ∧ FileTree.IsName capability

/-- Neither the owner's nor the capability's directory has an extension. -/
def IsPlain (f : ScriptFile) : Prop := ∀ owner capability, f.place = some (owner, capability) →
  fileExtension? owner = none ∧ fileExtension? capability = none

/-! ## The files that are scanned -/

def inDirectory (place : Option (String × String)) (path : String) (files : FileTree) : List ScriptFile :=
  ((files.filesAt path).filter fun (name, _) => fileExtension? name == some "lua").map
    fun (name, bytes) => ⟨place, name, bytes⟩

def scan (libraryDir toolsDir : String) (files : FileTree) : List ScriptFile :=
  inDirectory none libraryDir files ++ (files.directoriesAt toolsDir).flatMap fun (owner, _) =>
    (files.directoriesAt (FileTree.join toolsDir owner)).flatMap fun (capability, _) =>
      inDirectory (some (owner, capability)) (FileTree.join (FileTree.join toolsDir owner) capability) files

theorem mem_inDirectory {f : ScriptFile} {place : Option (String × String)} {path : String} {files : FileTree}
    (h : files.WellFormed) : f ∈ inDirectory place path files ↔ f.place = place ∧ fileExtension? f.name = some "lua" ∧
      FileTree.IsName f.name ∧ files.at? (FileTree.join path f.name) = some (.file f.bytes) := by
  unfold inDirectory
  rw [← FileTree.mem_filesAt h]
  constructor
  · intro hf
    obtain ⟨⟨name, bytes⟩, hmem, rfl⟩ := List.mem_map.mp hf
    obtain ⟨hmem, hext⟩ := List.mem_filter.mp hmem
    exact ⟨rfl, by simpa using hext, hmem⟩
  · rintro ⟨rfl, hext, hmem⟩
    exact List.mem_map.mpr ⟨(f.name, f.bytes), List.mem_filter.mpr ⟨hmem, by simpa using hext⟩, rfl⟩

theorem mem_scan {f : ScriptFile} {libraryDir toolsDir : String} {files : FileTree} (h : files.WellFormed) :
    f ∈ scan libraryDir toolsDir files ↔
      f.IsScript ∧ files.at? (f.path libraryDir toolsDir) = some (.file f.bytes) := by
  simp only [scan, List.mem_append, List.mem_flatMap, mem_inDirectory h]
  obtain ⟨place, name, bytes⟩ := f
  constructor
  · rintro (⟨rfl, hext, hname, hat⟩ | ⟨⟨owner, o⟩, ho, ⟨capability, c⟩, hc, rfl, hext, hname, hat⟩)
    · exact ⟨⟨hname, hext, by simp⟩, hat⟩
    · have ho := ((FileTree.mem_directoriesAt h).mp ho).1
      have hc := ((FileTree.mem_directoriesAt h).mp hc).1
      refine ⟨⟨hname, hext, ?_⟩, hat⟩
      rintro _ _ hplace
      cases hplace
      exact ⟨ho, hc⟩
  · rintro ⟨⟨hname, hext, howned⟩, hat⟩
    cases place with
    | none => exact .inl ⟨rfl, hext, hname, hat⟩
    | some place =>
      obtain ⟨owner, capability⟩ := place
      obtain ⟨ho, hc⟩ := howned owner capability rfl
      obtain ⟨c, hatc, hdirc⟩ := FileTree.isDirectory_of_at?_join hname hat
      obtain ⟨o, hato, hdiro⟩ := FileTree.isDirectory_of_at?_join hc hatc
      exact .inr ⟨(owner, o), (FileTree.mem_directoriesAt h).mpr ⟨ho, hato, hdiro⟩, (capability, c),
        (FileTree.mem_directoriesAt h).mpr ⟨hc, hatc, hdirc⟩, rfl, hext, hname, hat⟩

theorem nodup_inDirectory (place : Option (String × String)) (path : String) {files : FileTree} (h : files.WellFormed) :
    ((inDirectory place path files).map ScriptFile.name).Nodup := by
  have hnames : (inDirectory place path files).map ScriptFile.name =
      Assoc.keys ((files.filesAt path).filter fun (name, _) => fileExtension? name == some "lua") := by
    rw [inDirectory, List.map_map]
    rfl
  rw [hnames]
  exact (FileTree.nodup_filesAt h path).sublist (List.filter_sublist.map _)

theorem nodup_scan (libraryDir toolsDir : String) {files : FileTree} (h : files.WellFormed) :
    (scan libraryDir toolsDir files).Nodup := by
  have hplace : ∀ {f : ScriptFile} {place : Option (String × String)} {path : String},
      f ∈ inDirectory place path files → f.place = place := fun hf => ((mem_inDirectory h).mp hf).1
  have hone : ∀ place path, (inDirectory place path files).Nodup :=
    fun place path => (nodup_inDirectory place path h).of_map
  have hkeys : ∀ path, (files.directoriesAt path).Pairwise fun d e => d.1 ≠ e.1 :=
    fun path => List.pairwise_map.mp (FileTree.nodup_directoriesAt h path)
  unfold scan
  refine List.nodup_append.mpr ⟨hone _ _, List.nodup_flatMap.mpr ⟨fun o _ => List.nodup_flatMap.mpr
    ⟨fun c _ => hone _ _, (hkeys _).imp ?_⟩, (hkeys _).imp ?_⟩, ?_⟩
  · intro c c' hne f hf hf'
    have := (hplace hf).symm.trans (hplace hf')
    simp [hne] at this
  · intro o o' hne f hf hf'
    obtain ⟨c, -, hf⟩ := List.mem_flatMap.mp hf
    obtain ⟨c', -, hf'⟩ := List.mem_flatMap.mp hf'
    have := (hplace hf).symm.trans (hplace hf')
    simp [hne] at this
  · rintro f hf g hg rfl
    obtain ⟨o, -, hg⟩ := List.mem_flatMap.mp hg
    obtain ⟨c, -, hg⟩ := List.mem_flatMap.mp hg
    have := (hplace hf).symm.trans (hplace hg)
    simp at this

/-! ## Names -/

theorem isPlain_or (f : ScriptFile) : (f.IsPlain ∧ f.fragmentName = f.fullName) ∨
    (¬f.IsPlain ∧ f.fragmentName.length < f.fullName.length) := by
  obtain ⟨place, name, bytes⟩ := f
  cases place with
  | none => exact .inl ⟨by simp [IsPlain], rfl⟩
  | some place =>
    obtain ⟨owner, capability⟩ := place
    have ho := length_fileStem_le owner
    have hc := length_fileStem_le capability
    have hlength : ∀ o c : String, (s!"{o}/{c}/{fileStem name}").length =
        o.length + c.length + ((fileStem name).length + 2) := by
      intro o c
      show (o ++ "/" ++ c ++ "/" ++ fileStem name).length = _
      have hslash : ("/" : String).length = 1 := rfl
      simp only [String.length_append, hslash]
      omega
    have hplain : IsPlain ⟨some (owner, capability), name, bytes⟩ ↔
        fileExtension? owner = none ∧ fileExtension? capability = none := by
      simp [IsPlain]
    by_cases h : fileExtension? owner = none ∧ fileExtension? capability = none
    · have hsame : ∀ {s : String}, fileExtension? s = none → fileStem s = s := by
        intro s hs
        rcases fileStem_cases s with ⟨hstem, -⟩ | ⟨extension, hsome, -⟩
        · exact hstem
        · simp [hs] at hsome
      refine .inl ⟨hplain.mpr h, ?_⟩
      show s!"{fileStem owner}/{fileStem capability}/{fileStem name}" = s!"{owner}/{capability}/{fileStem name}"
      rw [hsame h.1, hsame h.2]
    · refine .inr ⟨fun hp => h (hplain.mp hp), ?_⟩
      rw [← length_fileStem_eq, ← length_fileStem_eq] at h
      show (s!"{fileStem owner}/{fileStem capability}/{fileStem name}").length <
        (s!"{owner}/{capability}/{fileStem name}").length
      rw [hlength, hlength]
      omega

theorem splitAt_fullName {f : ScriptFile} (h : f.IsScript) : Text.splitAt (· == '/') f.fullName.toList =
    match f.place with
    | none => [(fileStem f.name).toList]
    | some (owner, capability) => [owner.toList, capability.toList, (fileStem f.name).toList] := by
  have hone : ∀ {s : String}, '/' ∉ s.toList → Text.splitAt (· == '/') s.toList = [s.toList] := by
    intro s hs
    refine Text.splitAt_of_none _ fun c hc => ?_
    simpa using fun e : c = '/' => hs (e ▸ hc)
  have hstem : '/' ∉ (fileStem f.name).toList := slash_notMem_fileStem h.named.2.2.2
  obtain ⟨place, name, bytes⟩ := f
  cases place with
  | none => exact hone hstem
  | some place =>
    obtain ⟨owner, capability⟩ := place
    obtain ⟨ho, hc⟩ := h.owned owner capability rfl
    have hname : (s!"{owner}/{capability}/{fileStem name}").toList =
        owner.toList ++ '/' :: (capability.toList ++ '/' :: (fileStem name).toList) := by
      show (owner ++ "/" ++ capability ++ "/" ++ fileStem name).toList = _
      simp
    show Text.splitAt (· == '/') (s!"{owner}/{capability}/{fileStem name}").toList = _
    rw [hname, Text.splitAt_append (by decide), Text.splitAt_append (by decide), hone ho.2.2.2, hone hc.2.2.2, hone hstem]
    rfl

theorem fullName_inj {libraryDir toolsDir : String} {files : FileTree} (htree : files.WellFormed) {f g : ScriptFile}
    (hf : f ∈ scan libraryDir toolsDir files) (hg : g ∈ scan libraryDir toolsDir files)
    (h : f.fullName = g.fullName) : f = g := by
  obtain ⟨hscript, hat⟩ := (mem_scan htree).mp hf
  obtain ⟨hscript', hat'⟩ := (mem_scan htree).mp hg
  have hsplit := congrArg (fun s : String => Text.splitAt (· == '/') s.toList) h
  simp only [splitAt_fullName hscript, splitAt_fullName hscript'] at hsplit
  have hsame : f.place = g.place ∧ fileStem f.name = fileStem g.name := by
    cases hp : f.place with
    | none =>
      cases hq : g.place with
      | none => simpa [hp, hq, String.toList_inj] using hsplit
      | some q => simp [hp, hq] at hsplit
    | some p =>
      cases hq : g.place with
      | none => simp [hp, hq] at hsplit
      | some q => simpa [hp, hq, Prod.ext_iff, and_assoc, String.toList_inj] using hsplit
  have hname : f.name = g.name := by
    rw [name_eq_of_extension hscript.extension, name_eq_of_extension hscript'.extension, hsame.2]
  have hpath : f.path libraryDir toolsDir = g.path libraryDir toolsDir := by
    unfold path
    rw [hsame.1, hname]
  rw [hpath, hat'] at hat
  obtain ⟨place, name, bytes⟩ := f
  obtain ⟨place', name', bytes'⟩ := g
  cases hsame.1
  cases hname
  cases hat
  rfl

theorem isPlain_iff (f : ScriptFile) : f.IsPlain ↔ f.fragmentName = f.fullName := by
  rcases f.isPlain_or with ⟨hplain, hname⟩ | ⟨hnot, hshorter⟩
  · exact iff_of_true hplain hname
  · exact iff_of_false hnot fun hname => Nat.lt_irrefl _ (hname ▸ hshorter)

theorem isPlain_of_cover {found : List ScriptFile} (hinj : ∀ f ∈ found, ∀ g ∈ found, f.fullName = g.fullName → f = g)
    (hcover : ∀ f ∈ found, ∃ g ∈ found, g.fragmentName = f.fullName) : ∀ f ∈ found, f.IsPlain := by
  obtain ⟨bound, hbound⟩ : ∃ bound, ∀ f ∈ found, f.fullName.length ≤ bound :=
    ⟨(found.map fun f => f.fullName.length).max?.getD 0, fun f hf =>
      List.le_max?_getD_of_mem (List.mem_map_of_mem (f := fun f => f.fullName.length) hf)⟩
  -- A file with an extension on its way needs one with a longer name to cover it.
  have hlong : ∀ k, ∀ f ∈ found, bound ≤ f.fullName.length + k → f.IsPlain := by
    intro k
    induction k with
    | zero =>
      intro f hf hk
      obtain ⟨g, hg, hname⟩ := hcover f hf
      rcases isPlain_or g with ⟨hplain, hfull⟩ | ⟨-, hlt⟩
      · rwa [← hinj g hg f hf (hfull ▸ hname)]
      · have := hbound g hg
        rw [hname] at hlt
        omega
    | succ k ih =>
      intro f hf hk
      obtain ⟨g, hg, hname⟩ := hcover f hf
      rcases isPlain_or g with ⟨hplain, hfull⟩ | ⟨hnot, hlt⟩
      · rwa [← hinj g hg f hf (hfull ▸ hname)]
      · rw [hname] at hlt
        exact absurd (ih g hg (by omega)) hnot
  intro f hf
  exact hlong bound f hf (by omega)

end ScriptFile

/-! ## Filing -/

def ScriptFile.fragment? (f : ScriptFile) : Except ControlError Fragment :=
  match Text.Utf8.decode? f.bytes with
  | some content => .ok ⟨f.fragmentName, f.kind, String.ofList content⟩
  | none => .error .unreadable

theorem ScriptFile.fragment?_eq (f : ScriptFile) :
    f.fragment? = if f.IsReadable then .ok f.fragment else .error .unreadable := by
  cases hcontent : Text.Utf8.decode? f.bytes with
  | some content =>
    rw [if_pos (by rw [IsReadable, hcontent]; rfl), fragment?, fragment, text, hcontent]
    rfl
  | none => rw [if_neg (by rw [IsReadable, hcontent]; simp), fragment?, hcontent]

theorem ScriptFile.mapM_fragment? : ∀ l : List ScriptFile, l.mapM fragment? =
    if ∀ f ∈ l, f.IsReadable then .ok (l.map fragment) else .error .unreadable
  | [] => by simp; rfl
  | f :: l => by
    rw [List.mapM_cons, mapM_fragment? l, fragment?_eq]
    by_cases hf : f.IsReadable
    · by_cases hl : ∀ g ∈ l, g.IsReadable
      · rw [if_pos hf, if_pos hl, if_pos (List.forall_mem_cons.mpr ⟨hf, hl⟩)]
        rfl
      · rw [if_pos hf, if_neg hl, if_neg fun h => hl (List.forall_mem_cons.mp h).2]
        rfl
    · rw [if_neg hf, if_neg fun h => hf (List.forall_mem_cons.mp h).1]
      rfl

theorem mapM_flatMap {α β : Type} (g : β → Except ControlError Fragment) (f : α → List β) : ∀ l : List α,
    (l.flatMap f).mapM g = List.flatten <$> l.mapM fun a => (f a).mapM g
  | [] => rfl
  | a :: l => by
    rw [List.flatMap_cons, List.mapM_append, List.mapM_cons, mapM_flatMap g f l]
    simp

namespace Registry

theorem ownerScripts_eq (path owner : String) (files : FileTree) : ownerScripts path owner files =
    ((files.directoriesAt path).flatMap fun (capability, _) =>
      ScriptFile.inDirectory (some (owner, capability)) (FileTree.join path capability) files).mapM
        ScriptFile.fragment? := by
  have hone : ∀ capability, scriptsAt (FileTree.join path capability) .tool
      (fun stem => s!"{fileStem owner}/{fileStem capability}/{stem}") files =
        (ScriptFile.inDirectory (some (owner, capability)) (FileTree.join path capability) files).mapM
          ScriptFile.fragment? := by
    intro capability
    rw [ScriptFile.inDirectory, List.mapM_map]
    rfl
  simp only [mapM_flatMap, ownerScripts, hone]

theorem discover_scan (libraryDir toolsDir : String) (caching : Bool) (files : FileTree) :
    discover libraryDir toolsDir caching files = (fun fragments => fragments.foldl (fun r f => r.insert f) (empty caching)) <$>
      (ScriptFile.scan libraryDir toolsDir files).mapM ScriptFile.fragment? := by
  have hlibraries : scriptsAt libraryDir .library id files =
      (ScriptFile.inDirectory none libraryDir files).mapM ScriptFile.fragment? := by
    rw [ScriptFile.inDirectory, List.mapM_map]
    rfl
  unfold discover
  rw [ScriptFile.scan, List.mapM_append, mapM_flatMap, hlibraries]
  simp only [ownerScripts_eq, map_eq_pure_bind, bind_assoc, pure_bind]

theorem fragments_foldl_insert : ∀ (fragments : List Fragment) (r : Registry),
    fragments.foldl (fun r f => r.insert f) r =
      { r with fragments := Assoc.putAll (fragments.map fun f => (f.name, f)) r.fragments }
  | [], _ => rfl
  | f :: fragments, r => fragments_foldl_insert fragments (r.insert f)

/-- Discovery succeeds if every script is readable, and files the scripts in their order. -/
theorem discover_eq_filed (libraryDir toolsDir : String) (caching : Bool) (files : FileTree) :
    let found := ScriptFile.scan libraryDir toolsDir files
    discover libraryDir toolsDir caching files = if ∀ f ∈ found, f.IsReadable
      then .ok ⟨Assoc.ofList (found.map fun f => (f.fragmentName, f.fragment)), [], caching⟩
      else .error .unreadable := by
  intro found
  rw [discover_scan, ScriptFile.mapM_fragment?]
  by_cases h : ∀ f ∈ found, f.IsReadable
  · rw [if_pos h, if_pos h]
    refine congrArg Except.ok ((fragments_foldl_insert _ _).trans ?_)
    rw [List.map_map]
    rfl
  · rw [if_neg h, if_neg h]
    rfl

/-- **Discovery.** The scanned files are the scripts of the tree. Their fragments stand in the order of the
scan under the names that they are filed under, each with the text of the last file of its name. Every file has
a fragment of its own under the place where it lies if and only if no directory of a script has an extension. -/
theorem discover_whole_iff {libraryDir toolsDir : String} {caching : Bool} {files : FileTree} {r : Registry}
    (htree : files.WellFormed) (h : discover libraryDir toolsDir caching files = .ok r) :
    let found := ScriptFile.scan libraryDir toolsDir files
    found.Nodup ∧
    (∀ f, f ∈ found ↔ f.IsScript ∧ files.at? (f.path libraryDir toolsDir) = some (.file f.bytes)) ∧
    (∀ f ∈ found, Text.Utf8.decode? f.bytes = some f.text.toList) ∧
    Assoc.keys r.fragments = (found.map ScriptFile.fragmentName).eraseDups ∧
    (∀ name, r.get? name = (found.reverse.find? fun f => f.fragmentName = name).map ScriptFile.fragment) ∧
    ((found.map ScriptFile.fragmentName).Nodup ∧
        (∀ f ∈ found, r.get? f.fullName = some ⟨f.fullName, f.kind, f.text⟩) ↔
      ∀ f ∈ found, f.IsPlain) := by
  intro found
  rw [discover_eq_filed] at h
  split at h
  case isFalse => cases h
  rename_i hreadable
  cases h
  have hkeys : Assoc.keys (found.map fun f => (f.fragmentName, f.fragment)) = found.map ScriptFile.fragmentName := by
    rw [Assoc.keys, List.map_map]
    rfl
  have hget : ∀ name, Registry.get? name ⟨Assoc.ofList (found.map fun f => (f.fragmentName, f.fragment)), [], caching⟩ =
      (found.reverse.find? fun f => f.fragmentName = name).map ScriptFile.fragment := by
    intro name
    rw [← Assoc.get?_map, List.map_reverse, ← Assoc.get?_ofList]
    rfl
  refine ⟨ScriptFile.nodup_scan _ _ htree, fun f => ScriptFile.mem_scan htree, fun f hf => ?_, ?_, hget, ?_⟩
  · obtain ⟨content, hcontent⟩ := Option.isSome_iff_exists.mp (hreadable f hf)
    rw [ScriptFile.text, hcontent, Option.getD_some, String.toList_ofList]
  · rw [Assoc.keys_ofList, hkeys]
  constructor
  · rintro ⟨-, hall⟩
    -- stems are no longer than names, so all the places are only taken if no name is cut
    refine ScriptFile.isPlain_of_cover (fun f hf g hg => ScriptFile.fullName_inj htree hf hg) fun f hf => ?_
    have hsome := hall f hf
    rw [hget] at hsome
    obtain ⟨g, hfind, -⟩ := Option.map_eq_some_iff.mp hsome
    exact ⟨g, List.mem_reverse.mp (List.mem_of_find?_eq_some hfind), by simpa using List.find?_some hfind⟩
  · intro hplain
    have hname : ∀ f ∈ found, f.fragmentName = f.fullName := fun f hf => f.isPlain_iff.mp (hplain f hf)
    have hnodup : (found.map ScriptFile.fragmentName).Nodup := by
      refine List.Nodup.map_on (fun f hf g hg hfg => ?_) (ScriptFile.nodup_scan _ _ htree)
      rw [hname f hf, hname g hg] at hfg
      exact ScriptFile.fullName_inj htree hf hg hfg
    refine ⟨hnodup, fun f hf => ?_⟩
    rw [← hname f hf]
    unfold Registry.get?
    rw [Assoc.ofList_of_nodup (hkeys ▸ hnodup)]
    exact Assoc.get?_of_mem (hkeys ▸ hnodup) (List.mem_map_of_mem hf)

def moveTree : FileTree := (((FileTree.empty.write "lib/serialize.lua" (Text.Utf8.encode ['s'])).write
  "tools/agent/move_to/server.lua" (Text.Utf8.encode ['x'])).write
  "tools/agent/move_to/path.lua" (Text.Utf8.encode ['p'])).write
  "tools/admin/move_to/server.lua" (Text.Utf8.encode ['y'])

theorem discover_whole_move : moveTree.WellFormed ∧ ∃ r, discover "lib" "tools" true moveTree = .ok r ∧
    r.get? "serialize" = some ⟨"serialize", .library, "s"⟩ ∧
    r.get? "admin/move_to/server" = some ⟨"admin/move_to/server", .tool, "y"⟩ ∧
    r.get? "agent/move_to/path" = some ⟨"agent/move_to/path", .tool, "p"⟩ ∧
    r.get? "agent/move_to/server" = some ⟨"agent/move_to/server", .tool, "x"⟩ := by
  have htree : moveTree.WellFormed := (((FileTree.wellFormed_empty.write _ _).write _ _).write _ _).write _ _
  have hscan : ScriptFile.scan "lib" "tools" moveTree =
      [⟨none, "serialize.lua", Text.Utf8.encode ['s']⟩, ⟨some ("admin", "move_to"), "server.lua", Text.Utf8.encode ['y']⟩,
        ⟨some ("agent", "move_to"), "path.lua", Text.Utf8.encode ['p']⟩,
        ⟨some ("agent", "move_to"), "server.lua", Text.Utf8.encode ['x']⟩] := by decide +kernel
  have hplain : ∀ f ∈ ScriptFile.scan "lib" "tools" moveTree, f.fragmentName = f.fullName := by decide +kernel
  have hdiscover := discover_eq_filed "lib" "tools" true moveTree
  simp only [hscan] at hdiscover
  rw [if_pos (by decide +kernel)] at hdiscover
  obtain ⟨-, hwhole⟩ := (discover_whole_iff htree hdiscover).2.2.2.2.2.mpr fun f hf => f.isPlain_iff.mpr (hplain f hf)
  simp only [hscan, List.forall_mem_cons] at hwhole
  obtain ⟨hlibrary, hadmin, hpath, hserver, -⟩ := hwhole
  exact ⟨htree, _, hdiscover, hlibrary, hadmin, hpath, hserver⟩

/-- Two versions of a capability meet under one name, and only the second is known. -/
theorem discover_versions_meet :
    let files := (FileTree.empty.write "tools/agent/move.v1/server.lua" (Text.Utf8.encode ['a', '=', '1'])).write
      "tools/agent/move.v2/server.lua" (Text.Utf8.encode ['a', '=', '2'])
    (discover "lib" "tools" true files).toOption.map Registry.all = some [⟨"agent/move/server", .tool, "a=2"⟩] := by
  decide +kernel

end Registry

end RemoteConsole
