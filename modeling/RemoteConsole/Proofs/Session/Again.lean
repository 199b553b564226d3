import RemoteConsole.Proofs.Session.Ledger
import RemoteConsole.Proofs.Session.Loading

/-!
# Coming up a second time

After a session came up, every script that is wanted stands in the table that the remote side keeps.
So the next session over the same files reads the table and has nothing left to send. A script whose
upload is itself a command about the table breaks this.
-/

namespace RemoteConsole

open Script (Fragment)

variable {σ : Type}

/-! ## Nothing left to send -/

namespace Registry

open Console (Current)

theorem get?_installed {r : Registry} (hn : r.Named) {name : String} {f : Fragment} (hf : r.get? name = some f)
    (names : List String) : Assoc.get? name (r.installed names).mirror =
      if f ∈ r.due names then some f.hash else Assoc.get? name r.mirror := by
  let hash := fun n => ((r.get? n).map Fragment.hash).getD ""
  have hhash : ∀ e ∈ (r.due names).map Fragment.entry, e.2 = hash e.1 := by
    intro e he
    obtain ⟨g, hg, rfl⟩ := List.mem_map.mp he
    simp only [hash, Fragment.entry, hn.of_mem_due hg, Option.map_some, Option.getD_some]
  have hname : hash name = f.hash := by simp only [hash, hf, Option.map_some, Option.getD_some]
  rw [installed, get?_record hash hhash, hname]
  simp only [hn.mem_keys_due hf]

theorem current_installed {r : Registry} (hn : r.Named) {names : List String} {name : String} (hname : name ∈ names)
    (hknown : (r.get? name).isSome = true) : Current (r.installed names) name := by
  obtain ⟨f, hf⟩ := Option.isSome_iff_exists.mp hknown
  refine ⟨f, hf, ?_⟩
  rw [get?_installed hn hf]
  split
  · rfl
  · rename_i hnot
    cases houtdated : r.isOutdated f with
    | true => exact absurd (mem_due.mpr ⟨⟨name, hname, hf⟩, houtdated⟩) hnot
    | false => rwa [isOutdated_eq_false, hn _ _ hf] at houtdated

theorem current_keeps {r : Registry} (hn : r.Named) {name : String} (h : Current r name) (names : List String) :
    Current (r.installed names) name := by
  obtain ⟨f, hf, hmirror⟩ := h
  refine ⟨f, hf, ?_⟩
  rw [get?_installed hn hf, hmirror, ite_self]

theorem current_installedAll {name : String} : ∀ (lists : List (List String)) {r : Registry}, r.Named →
    Current r name ∨ (∃ names ∈ lists, name ∈ names) ∧ (r.get? name).isSome = true → Current (r.installedAll lists) name
  | [], _, _, h => by
    rcases h with h | ⟨⟨names, hnames, -⟩, -⟩
    · exact h
    · cases hnames
  | names :: lists, r, hn, h => by
    rw [installedAll_cons]
    refine current_installedAll lists (r := r.installed names) hn ?_
    rcases h with h | ⟨⟨names', hnames, hname⟩, hknown⟩
    · exact .inl (current_keeps hn h names)
    rcases List.mem_cons.mp hnames with rfl | hnames
    · exact .inl (current_installed hn hname hknown)
    · exact .inr ⟨⟨names', hnames, hname⟩, hknown⟩

theorem current_congr {r r' : Registry} (hget : ∀ name, r'.get? name = r.get? name) (hhashes : r'.hashes = r.hashes)
    {name : String} (h : Current r name) : Current r' name := by
  obtain ⟨f, hf, hmirror⟩ := h
  exact ⟨f, (hget name).trans hf, (congrFun hhashes name).trans hmirror⟩

end Registry

namespace Console

theorem fetch_eq {c : Console σ} {r : LinkReply} {wire : Wire σ} {mirror : List (String × String)}
    (hsend : Wire.send fetchCommand c.wire = (.ok r, wire)) (htable : fingerprints? r.text = some mirror) :
    fetch c = (.ok (), { c with wire, registry := c.registry.mirroring mirror }) := by
  have hreply : send fetchCommand c = (.ok r, { c with wire }) := by
    rw [send, onWire, Action.zoom, hsend]
  unfold fetch
  rw [Action.bind_ok hreply, htable]
  rfl

theorem installLibraries_again {c : Console σ} (hn : c.registry.Named) {names : List String}
    (hcurrent : ∀ name ∈ names, Current c.registry name)
    (hlibraries : ∀ name ∈ names, ∃ f, c.registry.get? name = some f ∧ f.kind = .library) :
    installLibraries names c = (.ok [], c) := by
  have hnone : names.find? (fun name => (c.registry.get? name).map (·.kind) != some .library) = none := by
    refine List.find?_eq_none.mpr fun name hname => ?_
    obtain ⟨f, hf, hkind⟩ := hlibraries name hname
    simp [hf, hkind]
  unfold installLibraries
  rw [Action.read_bind, hnone]
  exact install_again hn hcurrent

end Console

namespace Session

theorem forM_loadDirectory_again (ds : List CapabilityDirectory) {s : Session σ} (hn : s.console.registry.Named)
    (h : ∀ d ∈ ds, (Tool.ofIdentifier? d.identifier).isSome = true ∧
      ∀ name ∈ s.console.registry.toolsUnder d, Console.Current s.console.registry name) :
    ∃ s', ds.forM loadDirectory s = (.ok (), s') ∧ ∃ contexts, s'.console = { s.console with contexts } := by
  have hinstalled : s.console.IsInstalled ds := by
    refine ⟨hn, fun d hd name hname => ?_⟩
    obtain ⟨htool, hcurrent⟩ := h d hd
    obtain ⟨tool, htool⟩ := Option.isSome_iff_exists.mp htool
    rw [Registry.toolsBelow_eq _ htool] at hname
    exact hcurrent name hname
  obtain ⟨contexts, namespaces, hforM, -⟩ := forM_loadDirectory_installed ds hinstalled
  rw [CapabilityDirectory.loadingEnd_ok fun d hd => (h d hd).1] at hforM
  exact ⟨_, hforM, contexts, rfl⟩

theorem bootstrap_again {c : Console σ} (hn : c.registry.Named) (hcaching : c.registry.caching = true)
    {r : LinkReply} {wire : Wire σ} {mirror : List (String × String)}
    (hsend : Wire.send Console.fetchCommand c.wire = (.ok r, wire)) (htable : Console.fingerprints? r.text = some mirror)
    (hcurrent : ∀ name ∈ c.config.scripts.bootstrapLibraries, Console.Current (c.registry.mirroring mirror) name)
    (hlibraries : ∀ name ∈ c.config.scripts.bootstrapLibraries, ∃ f, c.registry.get? name = some f ∧ f.kind = .library) :
    Console.bootstrap c = (.ok (), { c with wire, registry := c.registry.mirroring mirror }) := by
  have hsync : Console.sync c = (.ok (), { c with wire, registry := c.registry.mirroring mirror }) := by
    unfold Console.sync
    rw [Action.read_bind, hcaching, if_pos rfl]
    exact Console.fetch_eq hsend htable
  have hinstall := Console.installLibraries_again (c := { c with wire, registry := c.registry.mirroring mirror })
    hn hcurrent hlibraries
  unfold Console.bootstrap
  rw [Action.bind_ok hsync, Action.read_bind, Action.bind_ok hinstall]
  rfl

theorem comeUp_again (config : Config) (files : FileTree) (hooks : Hooks) {registry : Registry} {wire wire' : Wire σ}
    (hn : registry.Named) (hcaching : registry.caching = true) {r : LinkReply} {mirror : List (String × String)}
    (hsend : Wire.send Console.fetchCommand wire = (.ok r, wire')) (htable : Console.fingerprints? r.text = some mirror)
    (hcurrent : ∀ names ∈ wanted config files registry, ∀ name ∈ names, Console.Current (registry.mirroring mirror) name)
    (hlibraries : ∀ name ∈ config.scripts.bootstrapLibraries, ∃ f, registry.get? name = some f ∧ f.kind = .library)
    (himplemented : ∀ d ∈ CapabilityDirectory.discover config.scripts.toolsDir files,
      (Tool.ofIdentifier? d.identifier).isSome = true) :
    ∃ s, comeUp (new (.new config files registry wire) hooks) = (.ok (), s) ∧ s.console.wire = wire' := by
  let c : Console σ := .new config files registry wire
  let c' : Console σ := { c with wire := wire', registry := registry.mirroring mirror }
  have hbootstrap : Console.bootstrap c = (.ok (), c') :=
    bootstrap_again hn hcaching hsend htable (hcurrent _ List.mem_cons_self) hlibraries
  have hconsole : onConsole Console.bootstrap (new c hooks) = (.ok (), { new c hooks with console := c' }) := by
    rw [onConsole, Action.zoom, show (new c hooks).console = c from rfl, hbootstrap]
  obtain ⟨s₁, hforM, contexts, hs₁⟩ := forM_loadDirectory_again
    (CapabilityDirectory.discover config.scripts.toolsDir files) (s := { new c hooks with console := c' }) hn
    fun d hd => ⟨himplemented d hd, hcurrent _ (List.mem_cons_of_mem _ (List.mem_map.mpr ⟨d, hd, rfl⟩))⟩
  have hload : load { new c hooks with console := c' } =
      (.ok (CapabilityDirectory.discover config.scripts.toolsDir files).length, s₁) := by
    unfold load
    rw [Action.read_bind]
    exact (Action.bind_ok hforM).trans rfl
  unfold comeUp
  rw [Action.bind_ok hconsole, Action.bind_ok hload]
  exact ⟨_, rfl, by rw [show _ = s₁.console.wire from rfl, hs₁]⟩

theorem start_of_comeUp {config : Config} {files : FileTree} {registry : Registry} {hooks : Hooks} {wire : Wire σ}
    {s : Session σ} (hvalid : config.validate = .ok ())
    (hdiscover : Registry.discover config.scripts.libraryDir config.scripts.toolsDir config.scripts.caching files =
      .ok registry) (hcome : comeUp (new (.new config files registry wire) hooks) = (.ok (), s)) :
    start config files hooks wire = .ok (.ok (), s) := by
  rw [start_eq hvalid hdiscover, hcome]

end Session

theorem Link.Remembers.opens {link : Link σ} {table : σ → String → Option String} (h : link.Remembers table)
    {caching : Bool} {r : LinkReply} {mirror : List (String × String)} {state state' : σ}
    (hsend : link.send (Console.opening caching) state = (.ok r, state')) (hopens : Console.Opens caching r.text mirror) :
    (Assoc.get? · mirror) = table state' := by
  cases caching with
  | true =>
    obtain ⟨hsame, mirror', hmirror', htable⟩ := h.read hsend
    have hread : Console.fingerprints? r.text = some mirror := hopens
    rw [hread] at hmirror'
    cases hmirror'
    rw [htable, hsame]
  | false =>
    have hempty : mirror = [] := hopens
    rw [hempty, h.clear hsend]
    rfl

def Config.cached (config : Config) : Config := { config with scripts := { config.scripts with caching := true } }

namespace Session

/-- **Coming up.** A session that comes up asks for the fingerprints or drops them and then sends the
rounds of what is wanted, and nothing else. Over a remote side that keeps the table, and if no script
is a command about it, the next session with caching on only reads it. -/
theorem start_twice {config : Config} {files : FileTree} {hooks : Hooks} {wire : Wire σ} {s : Session σ}
    (h : start config files hooks wire = .ok (.ok (), s)) :
    ∃ registry, Registry.discover config.scripts.libraryDir config.scripts.toolsDir config.scripts.caching files =
        .ok registry ∧
      (∃ reply mirror later, Console.Opens config.scripts.caching reply mirror ∧
        s.console.wire.exchanges =
          wire.exchanges ++ ⟨.command (Console.opening config.scripts.caching), some reply⟩ :: later ∧
        later.map Exchange.item = ((registry.mirroring mirror).rounds (wanted config files registry)).map Sent.command) ∧
      ∀ table, wire.link.Remembers table → registry.Harmless (wanted config files registry) →
        ∀ hooks' state, table state = table s.console.wire.state →
          (wire.link.send Console.fetchCommand state).1.isOk = true →
          ∃ s', start config.cached files hooks' (.connect wire.link state) = .ok (.ok (), s') ∧
            s'.console.wire.sent = [.command Console.fetchCommand] := by
  obtain ⟨hvalid, -⟩ := start_ok h
  obtain ⟨registry, reply, mirror, said, hc⟩ := start_cameUp h
  obtain ⟨hn, -, hagain⟩ := Registry.discover_ok hc.discovered
  refine ⟨registry, hc.discovered, ⟨reply, mirror, _, hc.opens, hc.answered.exchanges, ?_⟩, ?_⟩
  · rw [← hc.rounds, List.map_map, List.map_map]
    rfl
  intro table hlink hharmless hooks' state hstate hread
  -- the mirror ends as the table of the remote side, and so as what the next session will read
  have hend : s.console.registry.hashes = table s.console.wire.state := by
    cases hc.answered with
    | @cons _ w₁ _ _ r _ hsend hsaid =>
      obtain ⟨hsent, hsame, -⟩ := Wire.send_ok hsend
      rw [hc.installed]
      exact hsaid.rounds_table (by rw [hsame]; exact hlink) hc.rounds hharmless (hlink.opens hsent hc.opens)
  have hcurrent : ∀ names ∈ wanted config files registry, ∀ name ∈ names, Console.Current s.console.registry name := by
    intro names hnames name hname
    rw [hc.installed]
    exact Registry.current_installedAll _ hn (.inr ⟨⟨names, hnames, hname⟩, hc.known names hnames name hname⟩)
  cases hsend : wire.link.send Console.fetchCommand state with
  | mk outcome state' =>
    rw [hsend] at hread
    cases outcome with
    | error e => cases hread
    | crash c => cases hread
    | ok r =>
      obtain ⟨-, mirror', htable, hmirror⟩ := hlink.read hsend
      have hsame : (registry.cached.mirroring mirror').hashes = s.console.registry.hashes := by
        rw [hend, ← hstate, ← hmirror]
        rfl
      have hget (name : String) : (registry.cached.mirroring mirror').get? name = s.console.registry.get? name := by
        rw [hc.installed, Registry.get?_installedAll]
        rfl
      have hwanted : ∀ names ∈ wanted config.cached files registry.cached, ∀ name ∈ names,
          Console.Current (registry.cached.mirroring mirror') name := by
        rw [show wanted config.cached files registry.cached = wanted config files registry from rfl]
        exact fun names hnames name hname => Registry.current_congr hget hsame (hcurrent names hnames name hname)
      obtain ⟨s', hcome, hwire⟩ := comeUp_again config.cached files hooks' (show registry.cached.Named from hn) rfl
        (Wire.send_of_ok hsend []) htable hwanted hc.libraries hc.implemented
      exact ⟨s', start_of_comeUp hvalid hagain hcome, by rw [hwire]; rfl⟩

def came? (x : Except ControlError (Outcome Unit × Session σ)) : Option (Session σ) :=
  match x with
  | .ok (.ok (), s) => some s
  | _ => none

theorem came?_eq_some {x : Except ControlError (Outcome Unit × Session σ)} {s : Session σ} (h : came? x = some s) :
    x = .ok (.ok (), s) := by
  unfold came? at h
  split at h
  · cases h
    rfl
  · cases h

/-! ## Over a ledger -/

def shelf : Config := { Config.default with scripts := ⟨"lib", "tools", true, ["a"]⟩ }

def stock (tool : Option String) : FileTree :=
  .directory [("lib", .directory [("a.lua", .file (Text.Utf8.encode "a=1".toList))]),
    ("tools", .directory (match tool with
      | some content => [("agent", .directory [("sleep", .directory
          [("client", .file []), ("server.lua", .file (Text.Utf8.encode content.toList))])])]
      | none => []))]

def overLedger (tool : Option String) (table : List (String × String)) :
    Except ControlError (Outcome Unit × Session (List (String × String))) :=
  start shelf (stock tool) .empty (.connect Ledger.link table)

theorem start_twice_ledger : ∃ s s', overLedger none [] = .ok (.ok (), s) ∧ s.console.wire.sent.length = 3 ∧
    overLedger none s.console.wire.state = .ok (.ok (), s') ∧ s'.console.wire.sent = [.command Console.fetchCommand] := by
  have hcame : (came? (overLedger none [])).map (fun s => (s.console.wire.sent.length,
      (Ledger.link.send Console.fetchCommand s.console.wire.state).1.isOk)) = some (3, true) := by decide +kernel
  obtain ⟨s, hs, hfacts⟩ := Option.map_eq_some_iff.mp hcame
  obtain ⟨hlength, hread⟩ := Prod.mk.inj hfacts
  have hstart := came?_eq_some hs
  obtain ⟨registry, hdiscover, -, hagain⟩ := start_twice hstart
  have hfragment : (Registry.discover "lib" "tools" true (stock none)).toOption.bind (·.get? "a") =
      some ⟨"a", .library, "a=1"⟩ := by decide +kernel
  rw [show Registry.discover "lib" "tools" true (stock none) = .ok registry from hdiscover] at hfragment
  have hnone : CapabilityDirectory.discover "tools" (stock none) = [] := by decide +kernel
  have hwanted : wanted shelf (stock none) registry = [["a"]] := by
    rw [wanted, show CapabilityDirectory.discover shelf.scripts.toolsDir (stock none) = [] from hnone]
    rfl
  have hharmless : registry.Harmless (wanted shelf (stock none) registry) := by
    intro names hnames name hname f hf
    rw [hwanted] at hnames
    obtain rfl := List.mem_singleton.mp hnames
    obtain rfl := List.mem_singleton.mp hname
    obtain rfl : (⟨"a", .library, "a=1"⟩ : Fragment) = f := Option.some.inj (hfragment.symm.trans hf)
    rintro (hclear | ⟨entries, hupdate⟩)
    · exact absurd hclear (by decide)
    · exact Ledger.recordCommand_ne (by decide) entries hupdate.symm
  obtain ⟨s', hs', hsent⟩ := hagain _ Ledger.link_remembers hharmless .empty s.console.wire.state rfl hread
  exact ⟨s, s', hstart, hlength, hs', hsent⟩

theorem start_twice_cleared : Ledger.link.Remembers (fun table name => Assoc.get? name table) ∧
    ∃ s s', overLedger (some "global.fingerprints = \x7b\x7d") [] = .ok (.ok (), s) ∧
      overLedger (some "global.fingerprints = \x7b\x7d") s.console.wire.state = .ok (.ok (), s') ∧
      s'.console.wire.sent ≠ [.command Console.fetchCommand] := by
  have hcame : ((came? (overLedger (some "global.fingerprints = \x7b\x7d") [])).bind fun s =>
      (came? (overLedger (some "global.fingerprints = \x7b\x7d") s.console.wire.state)).map fun s' =>
        s'.console.wire.sent.length) = some 3 := by decide +kernel
  obtain ⟨s, hs, hs'⟩ := Option.bind_eq_some_iff.mp hcame
  obtain ⟨s', hs', hlength⟩ := Option.map_eq_some_iff.mp hs'
  refine ⟨Ledger.link_remembers, s, s', came?_eq_some hs, came?_eq_some hs', fun hsent => ?_⟩
  rw [hsent] at hlength
  cases hlength

end Session

end RemoteConsole
