import RemoteConsole.Proofs.Text.Runs
import RemoteConsole.Proofs.Text.Search
import RemoteConsole.Reply.Location

/-!
# Locations and their spelling

A location is a place, a line number between colons and what stands between it and the message. What
is cut away in front of a text is a location, and every location is: a place ends where its first
colon behind the source of a chunk stands, so no other reading of it comes in between.
-/

namespace RemoteConsole.Reply

open Text

/-- Which characters name a module and number a line, and what may stand behind the last colon. -/
structure Spelling where
  inName : Char → Bool
  inNumber : Char → Bool
  gap : List Char → Prop

/-- The remote side writes ASCII and one space. -/
def Spelling.written : Spelling where
  inName c := c.isAlphanum || c == '_' || c == '-'
  inNumber := Char.isDigit
  gap s := s = [' ']

/-- Words and digits of every script are read, and any blanks. -/
def Spelling.read : Spelling where
  inName := isModuleChar
  inNumber := isDecimalDigit
  gap s := ∀ c ∈ s, isBlank c = true

def InFile (c : Char) : Prop := isBlank c = false ∧ c ≠ ':'

instance (c : Char) : Decidable (InFile c) := inferInstanceAs (Decidable (isBlank c = false ∧ c ≠ ':'))

theorem forall_mem_of_all {p : Char → Prop} [DecidablePred p] {l : List Char} (h : l.all (fun c => decide (p c)) = true) :
    ∀ c ∈ l, p c :=
  fun c hc => of_decide_eq_true (List.all_eq_true.mp h c hc)

inductive Place (sp : Spelling) : List Char → Prop
  | chunk {source : List Char} (hsource : '"' ∉ source) : Place sp ("[string \"".toList ++ (source ++ "\"]".toList))
  | script {path : List Char} (hne : path ≠ []) (hpath : ∀ c ∈ path, InFile c) (hquote : '"' ∉ path) :
      Place sp (path ++ ".lua".toList)
  | module {name path : List Char} (hne : name ≠ []) (hname : ∀ c ∈ name, sp.inName c = true)
      (hpath : ∀ c ∈ path, InFile c) : Place sp ("__".toList ++ (name ++ ("__/".toList ++ path)))

inductive Location (sp : Spelling) : List Char → Prop
  | mk {place number gap : List Char} (hplace : Place sp place) (hne : number ≠ [])
      (hnumber : ∀ c ∈ number, sp.inNumber c = true) (hgap : sp.gap gap) :
      Location sp (place ++ ':' :: (number ++ ':' :: gap))

variable {s t rest place number path name : List Char}

/-! ## What is written is read -/

theorem isModuleChar_of_written {c : Char} (h : Spelling.written.inName c = true) : isModuleChar c = true := by
  have h : (c.isAlphanum || c == '_' || c == '-') = true := h
  rw [isModuleChar, isWordChar]
  cases hword : c.isAlphanum || c == '_' with
  | true => rfl
  | false =>
    rw [hword, Bool.false_or] at h
    rw [h, Bool.or_true]

theorem Place.read (h : Place .written place) : Place .read place := by
  cases h with
  | chunk hsource => exact .chunk hsource
  | script hne hpath hquote => exact .script hne hpath hquote
  | module hne hname hpath => exact .module hne (fun c hc => isModuleChar_of_written (hname c hc)) hpath

theorem Location.read (h : Location .written s) : Location .read s := by
  obtain ⟨hplace, hne, hnumber, hgap⟩ := h
  refine .mk hplace.read hne (fun c hc => ?_) ?_
  · have hc : c.isDigit = true := hnumber c hc
    exact Bool.or_eq_true_iff.mpr (.inl hc)
  · cases hgap
    exact fun c hc => by rw [List.mem_singleton.mp hc]; decide

theorem Location.space_mem (h : Location .written s) : ' ' ∈ s := by
  obtain ⟨-, -, -, hgap⟩ := h
  cases hgap
  simp

theorem Location.exists_digit (h : Location .written s) : ∃ c ∈ s, c.isDigit = true := by
  obtain @⟨_, number, _, -, hne, hnumber, -⟩ := h
  obtain ⟨c, number, rfl⟩ := List.exists_cons_of_ne_nil hne
  exact ⟨c, by simp, hnumber c List.mem_cons_self⟩

/-! ## Reading a location -/

theorem lineNumber?_number (hne : number ≠ []) (hnumber : ∀ c ∈ number, isDecimalDigit c = true) (t : List Char) :
    lineNumber? (':' :: (number ++ ':' :: t)) = some (trimStart t) := by
  have hcolon : Stops isDecimalDigit (':' :: t) := stops_cons t (by decide)
  have hfirst : after? [':'] (':' :: (number ++ ':' :: t)) = some (number ++ ':' :: t) := after?_append [':'] _
  have hsecond : after? [':'] (':' :: t) = some t := after?_append [':'] t
  have hempty : number.isEmpty = false := List.isEmpty_eq_false_iff.mpr hne
  unfold lineNumber?
  rw [hfirst, Option.bind_eq_bind, Option.bind_some, takeWhile_of_stops hnumber hcolon,
    dropWhile_of_stops hnumber hcolon, hempty, hsecond]
  rfl

theorem chunk?_chunk {source : List Char} (h : '"' ∉ source) (t : List Char) :
    chunk? ("[string \"".toList ++ (source ++ "\"]".toList) ++ t) = some t := by
  have hsource : ∀ c ∈ source, decide (c ≠ '"') = true := fun c hc => decide_eq_true fun heq => h (heq ▸ hc)
  have hquote : Stops (fun c => decide (c ≠ '"')) ("\"]".toList ++ t) := stops_cons _ (by decide)
  unfold chunk?
  rw [List.append_assoc, List.append_assoc, after?_append, Option.bind_eq_bind, Option.bind_some,
    dropWhile_of_stops hsource hquote, after?_append]

def inScript (c : Char) : Bool := !isBlank c && c != ':' && c != '"'

theorem scriptFile?_eq (s : List Char) :
    scriptFile? s = match before? ".lua".toList (s.takeWhile inScript) with
      | some (_ :: _) => some (s.dropWhile inScript)
      | _ => none := rfl

theorem inScript_eq_true {c : Char} : inScript c = true ↔ InFile c ∧ c ≠ '"' := by
  simp [inScript, InFile]

theorem scriptFile?_script (hne : path ≠ []) (hpath : ∀ c ∈ path, InFile c) (hquote : '"' ∉ path) (t : List Char) :
    scriptFile? (path ++ ".lua".toList ++ ':' :: t) = some (':' :: t) := by
  have hplace : ∀ c ∈ path ++ ".lua".toList, inScript c = true := by
    intro c hc
    rcases List.mem_append.mp hc with hc | hc
    · exact inScript_eq_true.mpr ⟨hpath c hc, fun heq => hquote (heq ▸ hc)⟩
    · have hlua : ".lua".toList.all inScript = true := by decide
      exact List.all_eq_true.mp hlua c hc
  have hcolon : Stops inScript (':' :: t) := stops_cons t (by decide)
  rw [scriptFile?_eq, takeWhile_of_stops hplace hcolon, dropWhile_of_stops hplace hcolon, before?_eq_some.mpr rfl]
  obtain ⟨c, path, rfl⟩ := List.exists_cons_of_ne_nil hne
  rfl

theorem moduleFile?_module (hne : name ≠ []) (hname : ∀ c ∈ name, isModuleChar c = true)
    (hpath : ∀ c ∈ path, InFile c) (t : List Char) :
    moduleFile? ("__".toList ++ (name ++ ("__/".toList ++ path)) ++ ':' :: t) = some (':' :: t) := by
  have hwhole : "__".toList ++ (name ++ ("__/".toList ++ path)) ++ ':' :: t =
      ['_', '_'] ++ ((name ++ ['_', '_']) ++ '/' :: (path ++ ':' :: t)) := by simp
  have hmodule : ∀ c ∈ name ++ ['_', '_'], isModuleChar c = true := by
    intro c hc
    rcases List.mem_append.mp hc with hc | hc
    · exact hname c hc
    · have hmarks : ['_', '_'].all isModuleChar = true := by decide
      exact List.all_eq_true.mp hmarks c hc
  have hslash : Stops isModuleChar ('/' :: (path ++ ':' :: t)) := stops_cons _ (by decide +kernel)
  have hfile : ∀ c ∈ path, (!isBlank c && c != ':') = true := fun c hc => by simp [(hpath c hc).1, (hpath c hc).2]
  have hcolon : Stops (fun c => !isBlank c && c != ':') (':' :: t) := stops_cons t (by decide)
  have hafter : after? ['/'] ('/' :: (path ++ ':' :: t)) = some (path ++ ':' :: t) := after?_append ['/'] _
  unfold moduleFile?
  rw [hwhole, after?_append, Option.bind_eq_bind, Option.bind_some, takeWhile_of_stops hmodule hslash,
    dropWhile_of_stops hmodule hslash, before?_eq_some.mpr rfl, hafter]
  obtain ⟨c, name, rfl⟩ := List.exists_cons_of_ne_nil hne
  simp only [Option.bind_some, dropWhile_of_stops hfile hcolon]
  rfl

/-! ## What is read is a location -/

theorem lineNumber?_sound (h : lineNumber? s = some rest) :
    ∃ number gap, number ≠ [] ∧ (∀ c ∈ number, isDecimalDigit c = true) ∧ (∀ c ∈ gap, isBlank c = true) ∧
      s = ':' :: (number ++ ':' :: (gap ++ rest)) := by
  unfold lineNumber? at h
  obtain ⟨t, ht, h⟩ := Option.bind_eq_some_iff.mp h
  split at h
  · cases h
  · next hempty =>
    obtain ⟨u, hu, rfl⟩ := Option.map_eq_some_iff.mp h
    refine ⟨t.takeWhile isDecimalDigit, u.takeWhile isBlank, by simpa using hempty, ?_, ?_, ?_⟩
    · exact fun c hc => List.mem_takeWhile_imp hc
    · exact fun c hc => List.mem_takeWhile_imp hc
    · calc
        s = [':'] ++ (t.takeWhile isDecimalDigit ++ t.dropWhile isDecimalDigit) := by
          rw [List.takeWhile_append_dropWhile, after?_eq_some.mp ht]
        _ = ':' :: (t.takeWhile isDecimalDigit ++ ':' :: (u.takeWhile isBlank ++ u.dropWhile isBlank)) := by
          rw [after?_eq_some.mp hu, List.takeWhile_append_dropWhile]
          rfl

theorem chunk?_sound (h : chunk? s = some rest) :
    ∃ source, '"' ∉ source ∧ s = "[string \"".toList ++ (source ++ "\"]".toList) ++ rest := by
  unfold chunk? at h
  obtain ⟨t, ht, h⟩ := Option.bind_eq_some_iff.mp h
  refine ⟨t.takeWhile fun c => decide (c ≠ '"'), ?_, ?_⟩
  · intro hquote
    exact of_decide_eq_true (List.mem_takeWhile_imp (p := fun c => decide (c ≠ '"')) hquote) rfl
  · rw [List.append_assoc, List.append_assoc, ← after?_eq_some.mp h, List.takeWhile_append_dropWhile]
    exact after?_eq_some.mp ht

theorem scriptFile?_sound (h : scriptFile? s = some rest) :
    ∃ path, path ≠ [] ∧ (∀ c ∈ path, InFile c) ∧ '"' ∉ path ∧ s = path ++ ".lua".toList ++ rest := by
  rw [scriptFile?_eq] at h
  split at h
  · next c path hbefore =>
    cases h
    have htake := before?_eq_some.mp hbefore
    have hinside : ∀ d ∈ c :: path, inScript d = true := by
      intro d hd
      apply List.mem_takeWhile_imp (l := s)
      rw [htake]
      exact List.mem_append_left _ hd
    refine ⟨c :: path, List.cons_ne_nil c path, ?_, ?_, ?_⟩
    · exact fun d hd => (inScript_eq_true.mp (hinside d hd)).1
    · exact fun hd => (inScript_eq_true.mp (hinside _ hd)).2 rfl
    · rw [← htake, List.takeWhile_append_dropWhile]
  · cases h

theorem moduleFile?_sound (h : moduleFile? s = some rest) :
    ∃ name path, name ≠ [] ∧ (∀ c ∈ name, isModuleChar c = true) ∧ (∀ c ∈ path, InFile c) ∧
      s = "__".toList ++ (name ++ ("__/".toList ++ path)) ++ rest := by
  unfold moduleFile? at h
  obtain ⟨t, ht, h⟩ := Option.bind_eq_some_iff.mp h
  split at h
  · next c name hbefore =>
    obtain ⟨u, hu, h⟩ := Option.bind_eq_some_iff.mp h
    cases h
    have htake := before?_eq_some.mp hbefore
    refine ⟨c :: name, u.takeWhile fun c => !isBlank c && c != ':', List.cons_ne_nil c name, ?_, ?_, ?_⟩
    · intro d hd
      apply List.mem_takeWhile_imp (l := t)
      rw [htake]
      exact List.mem_append_left _ hd
    · intro d hd
      have hfile : (!isBlank d && d != ':') = true := List.mem_takeWhile_imp (p := fun c => !isBlank c && c != ':') hd
      simpa [InFile] using hfile
    · have hrest := List.takeWhile_append_dropWhile (p := fun c => !isBlank c && c != ':') (l := u)
      calc
        s = ['_', '_'] ++ (t.takeWhile isModuleChar ++ t.dropWhile isModuleChar) := by
          rw [List.takeWhile_append_dropWhile, after?_eq_some.mp ht]
        _ = ['_', '_'] ++ (c :: name ++ ['_', '_'] ++ (['/'] ++ u)) := by rw [htake, after?_eq_some.mp hu]
        _ = _ := by
          conv_lhs => rw [← hrest]
          simp
  · cases h

/-! ## Every location is read -/

theorem Place.head (h : Place .read place) : ∃ c rest, place = c :: rest ∧ isBlank c = false := by
  cases h with
  | chunk hsource => exact ⟨'[', _, rfl, by decide⟩
  | @script path hne hpath hquote =>
    obtain ⟨c, path, rfl⟩ := List.exists_cons_of_ne_nil hne
    exact ⟨c, _, rfl, (hpath c List.mem_cons_self).1⟩
  | module hne hname hpath => exact ⟨'_', _, rfl, by decide⟩

theorem Location.head {loc : List Char} (h : Location .read loc) : ∃ c rest, loc = c :: rest ∧ isBlank c = false := by
  obtain ⟨hplace, -, -, -⟩ := h
  obtain ⟨c, rest, rfl, hc⟩ := hplace.head
  exact ⟨c, _, rfl, hc⟩

theorem notMem_of_inFile (h : ∀ c ∈ path, InFile c) : ':' ∉ path := fun hc => (h _ hc).2 rfl

theorem chunk?_script (hpath : ∀ c ∈ path, InFile c) (t : List Char) :
    chunk? (path ++ ".lua".toList ++ ':' :: t) = none := by
  cases hchunk : chunk? (path ++ ".lua".toList ++ ':' :: t) with
  | none => rfl
  | some rest =>
    obtain ⟨source, -, hs⟩ := chunk?_sound hchunk
    have hprefix : "[string \"".toList <+: path ++ ".lua".toList :=
      prefix_of_notMem (c := ':') (by decide) ⟨_, by rw [hs, List.append_assoc]⟩
    have hblank : ' ' ∈ path ++ ".lua".toList := hprefix.subset (by decide)
    rcases List.mem_append.mp hblank with hblank | hblank
    · exact absurd (hpath _ hblank).1 (by decide)
    · exact absurd hblank (by decide)

theorem chunk?_of_ne {c : Char} (h : c ≠ '[') (s : List Char) : chunk? (c :: s) = none := by
  unfold chunk?
  rw [after?_eq_none.mpr]
  · rfl
  · rintro ⟨rest, hrest⟩
    exact h (List.cons.inj hrest).1.symm

theorem scriptFile?_bind (hplace : ':' ∉ place) (t : List Char) :
    (scriptFile? (place ++ ':' :: t)).bind lineNumber? = none ∨
      (scriptFile? (place ++ ':' :: t)).bind lineNumber? = lineNumber? (':' :: t) := by
  cases hread : (scriptFile? (place ++ ':' :: t)).bind lineNumber? with
  | none => exact .inl rfl
  | some rest =>
    right
    obtain ⟨u, hscript, hline⟩ := Option.bind_eq_some_iff.mp hread
    obtain ⟨path, -, hpath, -, hs⟩ := scriptFile?_sound hscript
    obtain ⟨number, gap, -, -, -, rfl⟩ := lineNumber?_sound hline
    have hcolon : ':' ∉ path ++ ".lua".toList := by
      intro hc
      rcases List.mem_append.mp hc with hc | hc
      · exact notMem_of_inFile hpath hc
      · exact absurd hc (by decide)
    obtain ⟨-, rfl⟩ := append_cons_inj hplace hcolon hs
    exact hline.symm

theorem location?_place (hplace : Place .read place) (hne : number ≠ [])
    (hnumber : ∀ c ∈ number, isDecimalDigit c = true) (t : List Char) :
    location? (place ++ ':' :: (number ++ ':' :: t)) = some (trimStart t) := by
  have hline := lineNumber?_number hne hnumber t
  have hstart : trimStart (place ++ ':' :: (number ++ ':' :: t)) = place ++ ':' :: (number ++ ':' :: t) := by
    obtain ⟨c, rest, rfl, hc⟩ := hplace.head
    exact dropWhile_stops (stops_cons _ hc)
  unfold location?
  simp only [hstart]
  cases hplace with
  | chunk hsource =>
    rw [chunk?_chunk hsource, Option.bind_some, hline]
    rfl
  | script hpathne hpath hquote =>
    rw [chunk?_script hpath, scriptFile?_script hpathne hpath hquote, Option.bind_some, hline]
    rfl
  | @module name path hnamene hname hpath =>
    have hcolon : ':' ∉ "__".toList ++ (name ++ ("__/".toList ++ path)) := by
      have hmodule : ':' ∉ name := fun hc => absurd (hname _ hc) (by decide +kernel)
      have hfile := notMem_of_inFile hpath
      simp [hmodule, hfile]
    have hchunk : chunk? ("__".toList ++ (name ++ ("__/".toList ++ path)) ++ ':' :: (number ++ ':' :: t)) = none :=
      chunk?_of_ne (by decide) _
    rw [hchunk, moduleFile?_module hnamene hname hpath, Option.bind_some, hline]
    rcases scriptFile?_bind hcolon (number ++ ':' :: t) with hnone | hsame
    · rw [hnone]
      rfl
    · rw [hsame, hline]
      rfl

theorem location?_append {loc : List Char} (hloc : Location .read loc) (hs : Stops isBlank s) :
    location? (loc ++ s) = some s := by
  obtain @⟨place, number, gap, hplace, hne, hnumber, hgap⟩ := hloc
  have hwhole : place ++ ':' :: (number ++ ':' :: gap) ++ s = place ++ ':' :: (number ++ ':' :: (gap ++ s)) := by simp
  rw [hwhole, location?_place hplace hne hnumber, trimStart, dropWhile_of_stops hgap hs]

theorem exists_of_location? (h : location? s = some rest) (hs : Stops isBlank s) :
    ∃ loc, Location .read loc ∧ s = loc ++ rest := by
  have hplaced {place t : List Char} (hplace : Place .read place) (heq : s = place ++ t)
      (hline : lineNumber? t = some rest) : ∃ loc, Location .read loc ∧ s = loc ++ rest := by
    obtain ⟨number, gap, hne, hnumber, hgap, rfl⟩ := lineNumber?_sound hline
    exact ⟨_, .mk hplace hne hnumber hgap, by rw [heq]; simp⟩
  have hstart : trimStart s = s := dropWhile_stops hs
  unfold location? at h
  simp only [hstart] at h
  rcases Option.or_eq_some_iff.mp h with h | ⟨-, h⟩
  · obtain ⟨t, hchunk, hline⟩ := Option.bind_eq_some_iff.mp h
    obtain ⟨source, hsource, heq⟩ := chunk?_sound hchunk
    exact hplaced (.chunk hsource) heq hline
  · rcases Option.or_eq_some_iff.mp h with h | ⟨-, h⟩
    · obtain ⟨t, hscript, hline⟩ := Option.bind_eq_some_iff.mp h
      obtain ⟨path, hne, hpath, hquote, heq⟩ := scriptFile?_sound hscript
      exact hplaced (.script hne hpath hquote) heq hline
    · obtain ⟨t, hmodule, hline⟩ := Option.bind_eq_some_iff.mp h
      obtain ⟨name, path, hne, hname, hpath, heq⟩ := moduleFile?_sound hmodule
      exact hplaced (.module hne hname hpath) heq hline

theorem location?_eq_none (hs : Stops isBlank s) :
    location? s = none ↔ ∀ loc rest, Location .read loc → s ≠ loc ++ rest := by
  constructor
  · rintro hnone _ rest ⟨hplace, hne, hnumber, -⟩ rfl
    rw [List.append_assoc, List.cons_append, List.append_assoc, List.cons_append,
      location?_place hplace hne hnumber] at hnone
    cases hnone
  · intro h
    cases hread : location? s with
    | none => rfl
    | some rest =>
      obtain ⟨loc, hloc, heq⟩ := exists_of_location? hread hs
      exact absurd heq (h loc rest hloc)

end RemoteConsole.Reply
