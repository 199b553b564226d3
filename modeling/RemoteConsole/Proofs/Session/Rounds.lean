import RemoteConsole.Proofs.Session.Install

/-!
# Rounds of installing

An installation that succeeds is a round: the fragments that are due are uploaded in the order of
their names, each once, and then recorded with one command. Rounds share a mirror, so what a round
sends depends on the rounds before it and on nothing else.
-/

namespace RemoteConsole

open Script (Fragment)

variable {σ : Type}

/-! ## What was answered -/

inductive Wire.Answered : Wire σ → List (String × String) → Wire σ → Prop
  | nil (w : Wire σ) : Answered w [] w
  | cons {w w' w'' : Wire σ} {text : String} {r : LinkReply} {said : List (String × String)} :
    Wire.send text w = (.ok r, w') → Answered w' said w'' → Answered w ((text, r.text) :: said) w''

namespace Wire

theorem send_ok {text : String} {r : LinkReply} {w w' : Wire σ} (h : send text w = (.ok r, w')) :
    w.link.send text w.state = (.ok r, w'.state) ∧ w'.link = w.link ∧
      w'.exchanges = w.exchanges ++ [⟨.command text, some r.text⟩] := by
  unfold send at h
  split at h
  · cases h
  cases hlink : w.link.send text w.state with
  | mk outcome state =>
    unfold ask transmit at h
    rw [hlink] at h
    cases h
    exact ⟨rfl, rfl, rfl⟩

theorem send_of_ok {text : String} {r : LinkReply} {link : Link σ} {state state' : σ}
    (h : link.send text state = (.ok r, state')) (exchanges : List Exchange) :
    send text ⟨link, state, false, exchanges⟩ = (.ok r, ⟨link, state', false, exchanges ++ [⟨.command text, some r.text⟩]⟩) := by
  rw [send, if_neg Bool.false_ne_true, ask, transmit]
  simp only [h]
  rfl

theorem Answered.append {w w' w'' : Wire σ} {said more : List (String × String)} (h : w.Answered said w')
    (hmore : w'.Answered more w'') : w.Answered (said ++ more) w'' := by
  induction h with
  | nil => exact hmore
  | cons hsend _ ih => exact .cons hsend (ih hmore)

theorem Answered.link_eq {w w' : Wire σ} {said : List (String × String)} (h : w.Answered said w') :
    w'.link = w.link := by
  induction h with
  | nil => rfl
  | cons hsend _ ih => exact ih.trans (send_ok hsend).2.1

theorem Answered.exchanges {w w' : Wire σ} {said : List (String × String)} (h : w.Answered said w') :
    w'.exchanges = w.exchanges ++ said.map fun p => ⟨.command p.1, some p.2⟩ := by
  induction h with
  | nil => rw [List.map_nil, List.append_nil]
  | cons hsend _ ih => rw [ih, (send_ok hsend).2.2, List.append_assoc]; rfl

end Wire

namespace Console

/-- The texts went over the wire and were all answered; what is on disk is the same. -/
structure Told (c : Console σ) (texts : List String) (c' : Console σ) : Prop where
  said : ∃ said, said.map Prod.fst = texts ∧ c.wire.Answered said c'.wire
  config : c'.config = c.config
  files : c'.files = c.files

theorem Told.nil (c : Console σ) : c.Told [] c := ⟨⟨[], rfl, .nil _⟩, rfl, rfl⟩

theorem Told.append {c c' c'' : Console σ} {texts more : List String} (h : c.Told texts c')
    (hmore : c'.Told more c'') : c.Told (texts ++ more) c'' := by
  obtain ⟨said, rfl, hsaid⟩ := h.said
  obtain ⟨said', rfl, hsaid'⟩ := hmore.said
  exact ⟨⟨said ++ said', List.map_append, hsaid.append hsaid'⟩, hmore.config.trans h.config,
    hmore.files.trans h.files⟩

theorem send_ok {text : String} {r : LinkReply} {c c' : Console σ} (h : send text c = (.ok r, c')) :
    ∃ wire, Wire.send text c.wire = (.ok r, wire) ∧ c' = { c with wire } := by
  unfold send onWire Action.zoom at h
  cases hsend : Wire.send text c.wire with
  | mk outcome wire =>
    rw [hsend] at h
    cases h
    exact ⟨wire, rfl, rfl⟩

theorem told_send {text : String} {r : LinkReply} {c c' : Console σ} (h : send text c = (.ok r, c')) :
    c.Told [text] c' := by
  obtain ⟨wire, hsend, rfl⟩ := send_ok h
  exact ⟨⟨[(text, r.text)], rfl, .cons hsend (.nil _)⟩, rfl, rfl⟩

theorem decode_eq {reply : String} {v : Value} {c c' : Console σ} (h : decode reply c = (.ok v, c')) :
    c' = c := by
  cases hreply : Reply.decode reply with
  | ok v => rw [decode_ok hreply] at h; cases h; rfl
  | error e => rw [decode_error hreply] at h; cases h

end Console

/-! ## What is due -/

def Script.Fragment.entry (f : Fragment) : String × String := (f.name, f.hash)

/-- The fragments of these names that are out of date, in order and each once. -/
def Registry.due (names : List String) (r : Registry) : List Fragment :=
  ((names.filterMap r.get?).filter fun f => r.isOutdated f).eraseDups

def Console.uploadText (f : Fragment) : String := "/sc " ++ f.content

def Console.round (due : List Fragment) : List String :=
  due.map uploadText ++ if due.isEmpty then [] else [recordCommand (due.map Fragment.entry)]

namespace Registry

def mirroring (mirror : List (String × String)) (r : Registry) : Registry := { r with mirror }

def installed (names : List String) (r : Registry) : Registry := r.record ((r.due names).map Fragment.entry)

def rounds : List (List String) → Registry → List String
  | [], _ => []
  | names :: rest, r => Console.round (r.due names) ++ rounds rest (r.installed names)

variable {r : Registry} {names : List String}

theorem mem_due {f : Fragment} : f ∈ r.due names ↔ (∃ name ∈ names, r.get? name = some f) ∧ r.isOutdated f = true := by
  rw [due, List.mem_eraseDups, List.mem_filter, List.mem_filterMap]

theorem Named.of_mem_due (hn : r.Named) {f : Fragment} (h : f ∈ r.due names) : r.get? f.name = some f := by
  obtain ⟨⟨name, -, hget⟩, -⟩ := mem_due.mp h
  rwa [hn _ _ hget]

theorem Named.mem_keys_due (hn : r.Named) {name : String} {f : Fragment} (hf : r.get? name = some f) :
    name ∈ Assoc.keys ((r.due names).map Fragment.entry) ↔ f ∈ r.due names := by
  rw [Assoc.keys, List.map_map, List.mem_map]
  constructor
  · rintro ⟨g, hg, rfl⟩
    have hsame : r.get? g.name = some f := hf
    rw [hn.of_mem_due hg] at hsame
    cases hsame
    exact hg
  · exact fun h => ⟨f, h, hn _ _ hf⟩

theorem due_snoc_skip {name : String} {f : Fragment} (hf : r.get? name = some f)
    (h : r.isOutdated f = false ∨ f ∈ r.due names) : r.due (names ++ [name]) = r.due names := by
  unfold due at h ⊢
  rw [List.filterMap_append, List.filter_append, List.filterMap_cons_some (f := fun name => r.get? name) hf, List.filterMap_nil]
  rcases h with h | h
  · rw [List.filter_cons_of_neg (by rw [h]; decide), List.filter_nil, List.append_nil]
  · rw [List.mem_eraseDups] at h
    rw [List.filter_cons_of_pos (p := fun f => r.isOutdated f) (List.mem_filter.mp h).2, List.filter_nil,
      Assoc.eraseDups_snoc, if_pos h]

theorem due_snoc_new {name : String} {f : Fragment} (hf : r.get? name = some f)
    (h : r.isOutdated f = true) (hnew : f ∉ r.due names) : r.due (names ++ [name]) = r.due names ++ [f] := by
  unfold due at hnew ⊢
  rw [List.mem_eraseDups] at hnew
  rw [List.filterMap_append, List.filter_append, List.filterMap_cons_some (f := fun name => r.get? name) hf, List.filterMap_nil,
    List.filter_cons_of_pos (p := fun f => r.isOutdated f) h, List.filter_nil, Assoc.eraseDups_snoc,
    if_neg hnew]

end Registry

/-! ## Installations that succeed -/

namespace Console

theorem upload_ok {pending pending' : List (String × String)} {name : String} {c c' : Console σ}
    (h : upload pending name c = (.ok pending', c')) : ∃ f, c.registry.get? name = some f ∧
      ((c.registry.isOutdated f = false ∨ name ∈ Assoc.keys pending) ∧ pending' = pending ∧ c' = c ∨
        (c.registry.isOutdated f = true ∧ name ∉ Assoc.keys pending) ∧ pending' = pending ++ [(name, f.hash)] ∧
          c.Told [uploadText f] c' ∧ c'.registry = c.registry) := by
  unfold upload at h
  rw [Action.read_bind] at h
  cases hget : c.registry.get? name with
  | none =>
    rw [hget] at h
    cases h
  | some f =>
    rw [hget] at h
    refine ⟨f, rfl, ?_⟩
    have hpending : (Assoc.get? name pending).isSome = true ↔ name ∈ Assoc.keys pending := by
      rw [Option.isSome_iff_ne_none, ne_eq, Assoc.get?_eq_none, not_not]
    simp only at h
    split at h
    · rename_i hskip
      cases h
      rw [Bool.or_eq_true, Bool.not_eq_true', hpending] at hskip
      exact .inl ⟨hskip, rfl, rfl⟩
    · rename_i hneeded
      rw [Bool.or_eq_true, Bool.not_eq_true', hpending, not_or, Bool.not_eq_false] at hneeded
      refine .inr ⟨hneeded, ?_⟩
      cases hcheck : Script.check f.content.toList with
      | error issue => rw [hcheck] at h; cases h
      | ok _ =>
        rw [hcheck] at h
        obtain ⟨reply, c₁, hsend, h⟩ := Action.exists_of_bind_ok h
        obtain ⟨v, c₂, hdecode, h⟩ := Action.exists_of_bind_ok h
        cases h
        obtain rfl := decode_eq hdecode
        have htold := told_send hsend
        obtain ⟨wire, -, rfl⟩ := send_ok hsend
        exact ⟨rfl, htold, rfl⟩

theorem foldlM_upload_ok {c : Console σ} (hn : c.registry.Named) (names : List String) :
    ∀ {pending : List (String × String)} {c' : Console σ}, names.foldlM upload [] c = (.ok pending, c') →
      pending = (c.registry.due names).map Fragment.entry ∧ c.Told ((c.registry.due names).map uploadText) c' ∧
        c'.registry = c.registry ∧ ∀ name ∈ names, (c.registry.get? name).isSome = true := by
  induction names using List.reverseRecOn with
  | nil =>
    intro pending c' h
    cases h
    exact ⟨rfl, .nil c, rfl, by simp⟩
  | append_singleton names name ih =>
    intro pending c' h
    rw [List.foldlM_append] at h
    obtain ⟨before, c₁, hbefore, h⟩ := Action.exists_of_bind_ok h
    obtain ⟨rfl, htold, hregistry, hknown⟩ := ih hbefore
    rw [List.foldlM_cons] at h
    obtain ⟨after, c₂, hupload, h⟩ := Action.exists_of_bind_ok h
    cases h
    obtain ⟨f, hf, hcase⟩ := upload_ok hupload
    rw [hregistry] at hf hcase
    have hall : ∀ other ∈ names ++ [name], (c.registry.get? other).isSome = true := by
      intro other ho
      rcases List.mem_append.mp ho with ho | ho
      · exact hknown other ho
      · rw [List.mem_singleton.mp ho, hf]
        rfl
    rw [hn.mem_keys_due hf] at hcase
    rcases hcase with ⟨hskip, rfl, rfl⟩ | ⟨⟨houtdated, hnew⟩, rfl, htold', hregistry'⟩
    · rw [Registry.due_snoc_skip hf hskip]
      exact ⟨rfl, htold, hregistry, hall⟩
    · rw [Registry.due_snoc_new hf houtdated hnew, List.map_append, List.map_append]
      refine ⟨?_, htold.append htold', hregistry', hall⟩
      rw [List.map_singleton, Fragment.entry, hn _ _ hf]

theorem record_ok {entries : List (String × String)} {c c' : Console σ} (h : record entries c = (.ok (), c')) :
    c.Told (if entries.isEmpty then [] else [recordCommand entries]) c' ∧
      c'.registry = c.registry.record entries := by
  unfold record at h
  cases entries with
  | nil =>
    cases h
    exact ⟨.nil c, rfl⟩
  | cons e entries =>
    rw [List.isEmpty_cons, if_neg (by decide)] at h
    obtain ⟨reply, c₁, hsend, h⟩ := Action.exists_of_bind_ok h
    cases h
    obtain ⟨said, hconfig, hfiles⟩ := told_send hsend
    obtain ⟨wire, -, rfl⟩ := send_ok hsend
    exact ⟨⟨said, hconfig, hfiles⟩, rfl⟩

theorem install_ok {c c' : Console σ} (hn : c.registry.Named) {names uploaded : List String}
    (h : install names c = (.ok uploaded, c')) : c.Told (round (c.registry.due names)) c' ∧
      c'.registry = c.registry.installed names ∧ ∀ name ∈ names, (c.registry.get? name).isSome = true := by
  obtain ⟨pending, c₁, hfold, h⟩ := Action.exists_of_bind_ok h
  obtain ⟨rfl, htold, hregistry, hknown⟩ := foldlM_upload_ok hn names hfold
  obtain ⟨u, c₂, hrecord, h⟩ := Action.exists_of_bind_ok h
  cases h
  obtain ⟨htold', hregistry'⟩ := record_ok hrecord
  rw [List.isEmpty_map] at htold'
  exact ⟨htold.append htold', by rw [hregistry', hregistry]; rfl, hknown⟩

theorem installLibraries_ok {c c' : Console σ} (hn : c.registry.Named) {names uploaded : List String}
    (h : installLibraries names c = (.ok uploaded, c')) : c.Told (round (c.registry.due names)) c' ∧
      c'.registry = c.registry.installed names ∧
      ∀ name ∈ names, ∃ f, c.registry.get? name = some f ∧ f.kind = .library := by
  unfold installLibraries at h
  rw [Action.read_bind] at h
  generalize hfind : names.find? _ = missing at h
  cases missing with
  | some name => cases h
  | none =>
    obtain ⟨htold, hregistry, hknown⟩ := install_ok hn h
    refine ⟨htold, hregistry, fun name hname => ?_⟩
    obtain ⟨f, hf⟩ := Option.isSome_iff_exists.mp (hknown name hname)
    have hkind := List.find?_eq_none.mp hfind name hname
    rw [hf] at hkind
    exact ⟨f, hf, by simpa using hkind⟩

theorem installTools_ok {c c' : Console σ} (hn : c.registry.Named) {path : String} {n : Nat}
    (h : installTools path c = (.ok n, c')) :
    c.Told (round (c.registry.due (c.registry.toolsBelow path))) c' ∧
      c'.registry = c.registry.installed (c.registry.toolsBelow path) ∧
      ∀ name ∈ c.registry.toolsBelow path, (c.registry.get? name).isSome = true := by
  unfold installTools at h
  rw [Action.read_bind] at h
  obtain ⟨uploaded, c₁, hinstall, h⟩ := Action.exists_of_bind_ok h
  cases h
  exact install_ok hn hinstall

/-! ## The first command -/

/-- Fingerprints of earlier sessions are read, or all are dropped. -/
def opening (caching : Bool) : String := if caching then fetchCommand else clearCommand

def Opens (caching : Bool) (reply : String) (mirror : List (String × String)) : Prop :=
  if caching then fingerprints? reply = some mirror else mirror = []

theorem sync_ok {c c' : Console σ} (h : sync c = (.ok (), c')) : ∃ r mirror,
    Wire.send (opening c.registry.caching) c.wire = (.ok r, c'.wire) ∧ Opens c.registry.caching r.text mirror ∧
      c' = { c with wire := c'.wire, registry := c.registry.mirroring mirror } := by
  unfold sync at h
  rw [Action.read_bind] at h
  unfold opening Opens
  cases hcaching : c.registry.caching with
  | true =>
    rw [hcaching, if_pos rfl] at h
    obtain ⟨r, c₁, hsend, h⟩ := Action.exists_of_bind_ok h
    obtain ⟨wire, hwire, rfl⟩ := send_ok hsend
    cases htable : fingerprints? r.text with
    | none => rw [htable] at h; cases h
    | some mirror =>
      rw [htable] at h
      cases h
      exact ⟨r, mirror, hwire, htable, rfl⟩
  | false =>
    rw [hcaching, if_neg (by decide)] at h
    obtain ⟨r, c₁, hsend, h⟩ := Action.exists_of_bind_ok h
    obtain ⟨wire, hwire, rfl⟩ := send_ok hsend
    cases h
    exact ⟨r, [], hwire, rfl, rfl⟩

theorem bootstrap_ok {c c' : Console σ} (hn : c.registry.Named) (h : bootstrap c = (.ok (), c')) :
    ∃ (r : LinkReply) (mirror : List (String × String)) (c₁ : Console σ),
      Wire.send (opening c.registry.caching) c.wire = (.ok r, c₁.wire) ∧
      Opens c.registry.caching r.text mirror ∧
      c₁ = { c with wire := c₁.wire, registry := c.registry.mirroring mirror } ∧
      c₁.Told (round (c₁.registry.due c.config.scripts.bootstrapLibraries)) c' ∧
      c'.registry = c₁.registry.installed c.config.scripts.bootstrapLibraries ∧
      ∀ name ∈ c.config.scripts.bootstrapLibraries, ∃ f, c.registry.get? name = some f ∧ f.kind = .library := by
  obtain ⟨u, c₁, hsync, h⟩ := Action.exists_of_bind_ok h
  obtain ⟨r, mirror, hsend, hopens, hc₁⟩ := sync_ok hsync
  rw [Action.read_bind] at h
  obtain ⟨uploaded, c₂, hinstall, h⟩ := Action.exists_of_bind_ok h
  cases h
  have hregistry : c₁.registry = c.registry.mirroring mirror := by rw [hc₁]
  have hconfig : c₁.config = c.config := by rw [hc₁]
  have hn₁ : c₁.registry.Named := hregistry ▸ hn
  obtain ⟨htold, hinstalled, hlibraries⟩ := installLibraries_ok hn₁ hinstall
  rw [hconfig] at htold hinstalled hlibraries
  refine ⟨r, mirror, c₁, hsend, hopens, hc₁, htold, hinstalled, fun name hname => ?_⟩
  obtain ⟨f, hf, hkind⟩ := hlibraries name hname
  rw [hregistry] at hf
  exact ⟨f, hf, hkind⟩

end Console

end RemoteConsole
