import RemoteConsole.Proofs.Reply.Envelope
import RemoteConsole.Proofs.Reply.Location
import RemoteConsole.Proofs.Text.CharSet

/-!
# What is found in an error text

The remote side writes an error as a header, locations, the message and a trace. Each part is cut away
where it ends, so the message and the trace come back as they were written, unless the message itself
begins with what reads as a location.
-/

namespace RemoteConsole.Reply

open Text

/-- Nothing, or the banner of an interface call with the name of the function that failed. -/
inductive Header : List Char → Prop
  | absent : Header []
  | interface {i f : List Char} (hi : i ≠ []) (hf : f ≠ []) (hiname : ∀ c ∈ i, Spelling.written.inName c = true)
      (hfname : ∀ c ∈ f, Spelling.written.inName c = true) :
      Header (interfaceBanner ++ ' ' :: (i ++ '.' :: (f ++ ": ".toList)))

/-- Nothing, or a stack trace on a line of its own. -/
inductive Trace : List Char → Prop
  | absent : Trace []
  | stack (more : List Char) : Trace ('\n' :: (tracebackMarker ++ more))

/-- The parts of an error text, with the locations in the given spelling. The banner and the marker
occur only where they are meant, and the message does not begin with a location. -/
structure ErrorText (sp : Spelling) (header : List Char) (locations : List (List Char)) (message trace : List Char) :
    Prop where
  headed : Header header
  located : ∀ loc ∈ locations, Location sp loc
  nonempty : message ≠ []
  trimmed : trim message = message
  unlocated : ∀ loc rest, Location sp loc → message ≠ loc ++ rest
  traced : Trace trace
  banner : ¬ interfaceBanner <:+: locations.flatten ++ (message ++ trace)
  marker : ¬ tracebackMarker <:+: header ++ (locations.flatten ++ message)

variable {header message trace s loc : List Char} {locations : List (List Char)}

/-! ## Locations are cut away -/

theorem stripFrom_location (hloc : Location .read loc) (hs : trim s = s) : stripFrom (loc ++ s) = stripFrom s := by
  have hstops : Stops isBlank s := hs ▸ trim_stops s
  have hshorter : s.length < (loc ++ s).length := by
    obtain ⟨c, rest, rfl, -⟩ := hloc.head
    rw [List.length_append, List.length_cons]
    omega
  rw [stripFrom, location?_append hloc hstops]
  simp only [hs, if_pos hshorter]

theorem stripFrom_unlocated (h : location? s = none) : stripFrom s = s := by
  rw [stripFrom, h]

theorem trim_located (hlocations : ∀ loc ∈ locations, Location .read loc) (hne : message ≠ [])
    (htrim : trim message = message) : trim (locations.flatten ++ message) = locations.flatten ++ message := by
  apply trim_of_ends
  · cases locations with
    | nil => exact htrim ▸ trim_stops message
    | cons loc locations =>
      obtain ⟨c, rest, rfl, hc⟩ := (hlocations loc List.mem_cons_self).head
      exact stops_cons _ hc
  · intro c hc
    rw [List.getLast?_append_of_ne_nil _ hne] at hc
    exact trim_last message c (htrim.symm ▸ hc)

theorem stripFrom_located (hlocations : ∀ loc ∈ locations, Location .read loc) (hne : message ≠ [])
    (htrim : trim message = message) (hnone : location? message = none) :
    stripFrom (locations.flatten ++ message) = message := by
  induction locations with
  | nil => exact stripFrom_unlocated hnone
  | cons loc locations ih =>
    have hrest : ∀ loc ∈ locations, Location .read loc := fun l hl => hlocations l (List.mem_cons_of_mem _ hl)
    rw [List.flatten_cons, List.append_assoc,
      stripFrom_location (hlocations loc List.mem_cons_self) (trim_located hrest hne htrim)]
    exact ih hrest

theorem stripLocations_located {blanks : List Char} (hlocations : ∀ loc ∈ locations, Location .read loc)
    (hne : message ≠ []) (htrim : trim message = message) (hnone : location? message = none)
    (hblanks : Blank blanks) : stripLocations (locations.flatten ++ message ++ blanks) = message := by
  rw [stripLocations, trim_append_blanks hblanks, trim_located hlocations hne htrim]
  exact stripFrom_located hlocations hne htrim hnone

/-! ## The trace and the header are cut away -/

def traceOf (trace : List Char) : Option (List Char) := if trace = [] then none else some (trim trace)

theorem splitTraceback_traced (h : ¬ tracebackMarker <:+: s) (htrace : Trace trace) :
    ∃ blanks, Blank blanks ∧ splitTraceback (s ++ trace) = ⟨s ++ blanks, traceOf trace⟩ := by
  cases htrace with
  | absent =>
    refine ⟨[], blank_nil, ?_⟩
    rw [List.append_nil, splitTraceback, cutFirst?_eq_none.mpr h]
    rfl
  | stack more =>
    refine ⟨['\n'], by decide, ?_⟩
    have hfirst : FirstAt tracebackMarker (s ++ '\n' :: (tracebackMarker ++ more)) (s ++ ['\n']) more :=
      .behind (by decide) h
    rw [splitTraceback, cutFirst?_eq_some.mpr hfirst, traceOf, if_neg (List.cons_ne_nil _ _),
      trim_cons_blank (by decide)]

theorem range_of_isAlphanum {c : Char} (h : c.isAlphanum = true) : 48 ≤ c.toNat ∧ c.toNat ≤ 122 := by
  have hbetween {low high : UInt32} (hlow : low ≤ c.val) (hhigh : c.val ≤ high) :
      low.toNat ≤ c.toNat ∧ c.toNat ≤ high.toNat :=
    ⟨UInt32.le_iff_toNat_le.mp hlow, UInt32.le_iff_toNat_le.mp hhigh⟩
  rcases Bool.or_eq_true_iff.mp h with halpha | hdigit
  · rcases Bool.or_eq_true_iff.mp halpha with hupper | hlower
    · have hupper := hbetween (of_decide_eq_true hupper).1 (of_decide_eq_true hupper).2
      exact ⟨Nat.le_trans (by decide) hupper.1, Nat.le_trans hupper.2 (by decide)⟩
    · obtain ⟨hlow, hhigh⟩ := Bool.and_eq_true_iff.mp hlower
      have hlower := hbetween (of_decide_eq_true hlow) (of_decide_eq_true hhigh)
      exact ⟨Nat.le_trans (by decide) hlower.1, hlower.2⟩
  · obtain ⟨hlow, hhigh⟩ := Bool.and_eq_true_iff.mp hdigit
    have hdigit := hbetween (of_decide_eq_true hlow) (of_decide_eq_true hhigh)
    exact ⟨hdigit.1, Nat.le_trans hdigit.2 (by decide)⟩

theorem isBlank_of_written {c : Char} (h : Spelling.written.inName c = true) : isBlank c = false := by
  have hrange : 0x21 ≤ c.toNat ∧ c.toNat < 0x85 := by
    have h : (c.isAlphanum || c == '_' || c == '-') = true := h
    rcases Bool.or_eq_true_iff.mp h with h | hdash
    · rcases Bool.or_eq_true_iff.mp h with halphanum | hscore
      · have hrange := range_of_isAlphanum halphanum
        omega
      · rw [beq_iff_eq.mp hscore]
        decide
    · rw [beq_iff_eq.mp hdash]
      decide
  have hspans : ∀ span ∈ spans blankBoundaries, span.2 ≤ 0x21 ∨ 0x85 ≤ span.1 := by decide
  rw [Bool.eq_false_iff]
  intro hblank
  obtain ⟨span, hspan, hlow, hhigh⟩ := isBlank_iff.mp hblank
  rcases hspans span hspan with hbelow | habove
  · omega
  · omega

theorem afterInterfaceName?_header {i f : List Char} (hi : i ≠ []) (hf : f ≠ [])
    (hiname : ∀ c ∈ i, Spelling.written.inName c = true) (hfname : ∀ c ∈ f, Spelling.written.inName c = true)
    (hs : Stops isBlank s) : afterInterfaceName? (' ' :: (i ++ '.' :: (f ++ ": ".toList)) ++ s) = some s := by
  have himodule : ∀ c ∈ i, isModuleChar c = true := fun c hc => isModuleChar_of_written (hiname c hc)
  have hfmodule : ∀ c ∈ f, isModuleChar c = true := fun c hc => isModuleChar_of_written (hfname c hc)
  have hstart : Stops isBlank (i ++ '.' :: (f ++ ([':'] ++ ' ' :: s))) := by
    obtain ⟨c, i, rfl⟩ := List.exists_cons_of_ne_nil hi
    exact stops_cons _ (isBlank_of_written (hiname c List.mem_cons_self))
  have hdot : Stops isModuleChar ('.' :: (f ++ ([':'] ++ ' ' :: s))) := stops_cons _ (by decide +kernel)
  have hcolon : Stops isModuleChar ([':'] ++ ' ' :: s) := stops_cons _ (by decide +kernel)
  have hwhole : ' ' :: (i ++ '.' :: (f ++ ": ".toList)) ++ s = [' '] ++ (i ++ '.' :: (f ++ ([':'] ++ ' ' :: s))) := by simp
  have hspace : Blank [' '] := by decide
  have hblanks : trimStart ([' '] ++ (i ++ '.' :: (f ++ ([':'] ++ ' ' :: s)))) = i ++ '.' :: (f ++ ([':'] ++ ' ' :: s)) :=
    dropWhile_of_stops hspace hstart
  have hafterDot : after? ['.'] ('.' :: (f ++ ([':'] ++ ' ' :: s))) = some (f ++ ([':'] ++ ' ' :: s)) := after?_append ['.'] _
  have hrest : trimStart (' ' :: s) = s := dropWhile_of_stops hspace hs
  unfold afterInterfaceName?
  simp only [hwhole, hblanks, takeWhile_of_stops himodule hdot, dropWhile_of_stops himodule hdot, hafterDot,
    List.isEmpty_eq_false_iff.mpr hi, List.isEmpty_eq_false_iff.mpr hf, Option.bind_eq_bind, Option.bind_some,
    takeWhile_of_stops hfmodule hcolon, dropWhile_of_stops hfmodule hcolon, after?_append, Option.map_some, hrest]
  rfl

/-! ## The whole text -/

theorem textReport_extracts (h : ErrorText .read header locations message trace) :
    textReport (header ++ (locations.flatten ++ (message ++ trace))) = ⟨message, traceOf trace⟩ := by
  have hnone : location? message = none := (location?_eq_none (h.trimmed ▸ trim_stops message)).mpr h.unlocated
  have hstrip {blanks : List Char} (hblanks : Blank blanks) :
      stripLocations (locations.flatten ++ message ++ blanks) = message :=
    stripLocations_located h.located h.nonempty h.trimmed hnone hblanks
  have hempty : message.isEmpty = false := List.isEmpty_eq_false_iff.mpr h.nonempty
  cases h.headed with
  | absent =>
    obtain ⟨blanks, hblanks, hsplit⟩ := splitTraceback_traced h.marker h.traced
    rw [List.nil_append, List.append_assoc] at hsplit
    have hbanner := contains_eq_false.mpr h.banner
    simp only [textReport, List.nil_append, hbanner, Bool.false_eq_true, if_false, hsplit]
    rw [← List.append_assoc, hstrip hblanks, hempty]
    rfl
  | @interface i f hi hf hiname hfname =>
    -- banner and name are dropped first, which brings the locations to the front
    obtain ⟨name, hname⟩ : ∃ name, name = ' ' :: (i ++ '.' :: (f ++ ": ".toList)) := ⟨_, rfl⟩
    have hmarker := h.marker
    rw [← hname] at hmarker ⊢
    have hbody : ¬ tracebackMarker <:+: name ++ (locations.flatten ++ message) := by
      intro hinfix
      apply hmarker
      rw [List.append_assoc]
      exact hinfix.trans (List.suffix_append interfaceBanner _).isInfix
    obtain ⟨blanks, hblanks, hsplit⟩ := splitTraceback_traced hbody h.traced
    have hstops : Stops isBlank (locations.flatten ++ message ++ blanks) := by
      have hbegins := trim_stops (locations.flatten ++ message)
      rw [trim_located h.located h.nonempty h.trimmed] at hbegins
      obtain ⟨c, rest, hrest⟩ := List.exists_cons_of_ne_nil (List.append_ne_nil_of_right_ne_nil locations.flatten h.nonempty)
      rw [hrest] at hbegins ⊢
      exact stops_cons _ (hbegins c rfl)
    have hafter : afterInterfaceName? (name ++ (locations.flatten ++ message ++ blanks)) =
        some (locations.flatten ++ message ++ blanks) := by
      rw [hname]
      exact afterInterfaceName?_header hi hf hiname hfname hstops
    have hcontains : contains interfaceBanner (interfaceBanner ++ (name ++ (locations.flatten ++ (message ++ trace)))) = true :=
      contains_eq_true.mpr (List.prefix_append _ _).isInfix
    have hcut := cutFirst?_eq_some.mpr (firstAt_nil interfaceBanner (name ++ (locations.flatten ++ (message ++ trace))))
    have hwhole : name ++ (locations.flatten ++ message) ++ trace = name ++ (locations.flatten ++ (message ++ trace)) := by simp
    have hhead : name ++ (locations.flatten ++ message) ++ blanks = name ++ (locations.flatten ++ message ++ blanks) := by simp
    rw [hwhole, hhead] at hsplit
    rw [List.append_assoc, textReport, if_pos hcontains, interfaceReport, hcut, Option.map_some, Option.getD_some]
    simp only [hsplit, hafter, Option.getD_some, hstrip hblanks, hempty]
    rfl

/-- What the remote side answers when a call failed with an error text. -/
def failure (text : List Char) : String := (envelope false (.string (String.ofList text))).toLiteral

theorem decode_failure (text : List Char) :
    decode (failure text) = .error ((textReport text).toError (failure text)) := by
  have hopened (raw : String) : openEnvelope (envelope false (clean (Value.string (String.ofList text)).canon)) raw =
      .error ((textReport (String.ofList text).toList).toError raw) := rfl
  rw [failure, decode_envelope false (.string _), clean_envelope, hopened, String.toList_ofList]

/-- **An error text is taken apart as it was put together.** Its message and its trace come back, with
nothing of the header and of the locations, however many there are; and the message keeps what stands
in it further on. -/
theorem decode_extracts (h : ErrorText .read header locations message trace) :
    let reply := failure (header ++ (locations.flatten ++ (message ++ trace)))
    decode reply = .error ⟨String.ofList message, reply, (traceOf trace).map String.ofList⟩ := by
  intro reply
  have hreport := textReport_extracts h
  rw [decode_failure, hreport]
  rfl

/-- Two locations, one of them a chunk with a colon in its source, and a message with colons. -/
theorem decode_extracts_nested :
    let header := interfaceBanner ++ ' ' :: ("actions".toList ++ '.' :: ("place-entity".toList ++ ": ".toList))
    let locations := ["[string \"a: b\"]:1: ".toList, "__level__/place.lua:12: ".toList]
    let message := "No space: (3, 4)".toList
    let trace := '\n' :: (tracebackMarker ++ ":\n\t[C]".toList)
    let reply := failure (header ++ (locations.flatten ++ (message ++ trace)))
    ErrorText .read header locations message trace ∧
      decode reply = .error ⟨"No space: (3, 4)", reply, some "stack traceback:\n\t[C]"⟩ := by
  have hchunk : Location .written "[string \"a: b\"]:1: ".toList :=
    @Location.mk .written "[string \"a: b\"]".toList ['1'] [' '] (@Place.chunk .written "a: b".toList (by decide))
      (by decide) (forall_mem_of_all (by decide)) rfl
  have hmodule : Location .written "__level__/place.lua:12: ".toList :=
    @Location.mk .written "__level__/place.lua".toList ['1', '2'] [' ']
      (@Place.module .written "level".toList "place.lua".toList (by decide) (forall_mem_of_all (by decide))
        (forall_mem_of_all (by decide))) (by decide) (forall_mem_of_all (by decide)) rfl
  have htext : ErrorText .read (interfaceBanner ++ ' ' :: ("actions".toList ++ '.' :: ("place-entity".toList ++ ": ".toList)))
      ["[string \"a: b\"]:1: ".toList, "__level__/place.lua:12: ".toList] "No space: (3, 4)".toList
      ('\n' :: (tracebackMarker ++ ":\n\t[C]".toList)) := {
    headed := .interface (i := "actions".toList) (f := "place-entity".toList) (by decide) (by decide)
      (forall_mem_of_all (by decide)) (forall_mem_of_all (by decide))
    located := by
      intro loc hloc
      rcases List.mem_pair.mp hloc with rfl | rfl
      · exact hchunk.read
      · exact hmodule.read
    nonempty := by decide
    trimmed := by decide +kernel
    unlocated := (location?_eq_none (stops_cons _ (by decide))).mp (by decide +kernel)
    traced := .stack _
    banner := contains_eq_false.mp (by decide +kernel)
    marker := contains_eq_false.mp (by decide +kernel) }
  have hmessage : String.ofList "No space: (3, 4)".toList = "No space: (3, 4)" := String.ofList_toList
  have htrace : (traceOf ('\n' :: (tracebackMarker ++ ":\n\t[C]".toList))).map String.ofList =
      some "stack traceback:\n\t[C]" := by decide +kernel
  have hdecode := decode_extracts htext
  rw [hmessage, htrace] at hdecode
  exact ⟨htext, hdecode⟩

theorem decode_located (hloc : Location .read loc) (hbanner : contains interfaceBanner (loc ++ ['x']) = false)
    (hmarker : contains tracebackMarker (loc ++ ['x']) = false) :
    decode (failure (loc ++ ['x'])) = .error ⟨"x", failure (loc ++ ['x']), none⟩ := by
  have hflatten : [loc].flatten = loc := List.flatten_singleton
  have htext : ErrorText .read [] [loc] ['x'] [] := {
    headed := .absent
    located := fun l hl => List.mem_singleton.mp hl ▸ hloc
    nonempty := List.cons_ne_nil _ _
    trimmed := by decide
    unlocated := (location?_eq_none (stops_cons _ (by decide))).mp (by decide +kernel)
    traced := .absent
    banner := by rwa [hflatten, List.append_nil, ← contains_eq_false]
    marker := by rwa [hflatten, List.nil_append, ← contains_eq_false] }
  have hreport := textReport_extracts htext
  rw [hflatten, List.nil_append, List.append_nil] at hreport
  rw [decode_failure, hreport]
  rfl

theorem errorText_bare {sp : Spelling} (hne : message ≠ []) (htrim : trim message = message)
    (hunlocated : ∀ loc rest, Location sp loc → message ≠ loc ++ rest)
    (hbanner : contains interfaceBanner message = false) (hmarker : contains tracebackMarker message = false) :
    ErrorText sp [] [] message [] where
  headed := .absent
  located := List.forall_mem_nil _
  nonempty := hne
  trimmed := htrim
  unlocated := hunlocated
  traced := .absent
  banner := by rwa [List.flatten_nil, List.nil_append, List.append_nil, ← contains_eq_false]
  marker := by rwa [List.flatten_nil, List.nil_append, List.nil_append, ← contains_eq_false]

/-- A location is also read where the remote side would not write one: with no space behind it, or with
the digits of another script. A message that begins so is cut. -/
theorem decode_overreads :
    (ErrorText .written [] [] "a.lua:1:x".toList [] ∧
      decode (failure "a.lua:1:x".toList) = .error ⟨"x", failure "a.lua:1:x".toList, none⟩) ∧
    ErrorText .written [] [] "a.lua:٣: x".toList [] ∧
      decode (failure "a.lua:٣: x".toList) = .error ⟨"x", failure "a.lua:٣: x".toList, none⟩ := by
  have hplace : Place .read "a.lua".toList := @Place.script .read ['a'] (by decide) (forall_mem_of_all (by decide)) (by decide)
  have htight : Location .read "a.lua:1:".toList :=
    @Location.mk .read _ ['1'] [] hplace (by decide) (forall_mem_of_all (by decide)) blank_nil
  have hspace : Blank [' '] := by decide
  have hforeign : Location .read "a.lua:٣: ".toList :=
    @Location.mk .read _ ['٣'] [' '] hplace (by decide) (forall_mem_of_all (by decide +kernel)) hspace
  refine ⟨⟨?_, ?_⟩, ?_, ?_⟩
  · refine errorText_bare (by decide) (by decide +kernel) ?_ (by decide +kernel) (by decide +kernel)
    intro loc rest hloc heq
    have hspace : ' ' ∈ "a.lua:1:x".toList := heq ▸ List.mem_append_left rest hloc.space_mem
    exact absurd hspace (by decide)
  · have hparts : "a.lua:1:x".toList = "a.lua:1:".toList ++ ['x'] := by decide
    rw [hparts]
    exact decode_located htight (by decide +kernel) (by decide +kernel)
  · refine errorText_bare (by decide) (by decide +kernel) ?_ (by decide +kernel) (by decide +kernel)
    intro loc rest hloc heq
    obtain ⟨c, hc, hdigit⟩ := hloc.exists_digit
    have hmem : c ∈ "a.lua:٣: x".toList := heq ▸ List.mem_append_left rest hc
    have hnone : ∀ c ∈ "a.lua:٣: x".toList, c.isDigit = false := forall_mem_of_all (by decide)
    rw [hnone c hmem] at hdigit
    cases hdigit
  · have hparts : "a.lua:٣: x".toList = "a.lua:٣: ".toList ++ ['x'] := by decide
    rw [hparts]
    exact decode_located hforeign (by decide +kernel) (by decide +kernel)

end RemoteConsole.Reply
