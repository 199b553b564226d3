import RemoteConsole.Proofs.Session.Bindings
import RemoteConsole.Proofs.Session.Rounds
import RemoteConsole.Session.Basic

/-!
# How a session comes up

A session that comes up sends one command about the fingerprints, a round for the libraries and a
round for each capability on disk, in that order and nothing else. The round of a capability holds
the tool fragments under its own name; a name that only begins alike belongs to another one.
-/

namespace RemoteConsole

open Script (Fragment)

variable {σ : Type}

/-! ## Names below a directory -/

namespace Text

theorem splitAt_snoc {sep : Char → Bool} {c : Char} (hc : sep c = false) : ∀ s : List Char,
    ∃ pieces piece, splitAt sep (s ++ [c]) = pieces ++ [piece ++ [c]]
  | [] => ⟨[], [], by simp [splitAt, hc]⟩
  | d :: s => by
    obtain ⟨pieces, piece, h⟩ := splitAt_snoc hc s
    rw [List.cons_append, splitAt, h]
    by_cases hd : sep d = true
    · exact ⟨[] :: pieces, piece, by rw [if_pos hd]; rfl⟩
    · rw [if_neg hd]
      cases pieces with
      | nil => exact ⟨[], d :: piece, rfl⟩
      | cons p pieces => exact ⟨(d :: p) :: pieces, piece, rfl⟩

theorem after?_isSome {p s : List Char} : (after? p s).isSome = true ↔ p <+: s := by
  constructor
  · intro h
    obtain ⟨rest, hrest⟩ := Option.isSome_iff_exists.mp h
    exact ⟨rest, (eq_append_of_after? hrest).symm⟩
  · rintro ⟨rest, rfl⟩
    rw [after?_append]
    rfl

end Text

theorem capitalize_snoc {c : Char} (hc : Text.uppercase c = [c]) (piece : List Char) :
    ∃ front, capitalize (piece ++ [c]) = front ++ [c] := by
  cases piece with
  | nil => exact ⟨[], by rw [List.nil_append, capitalize, hc]; rfl⟩
  | cons d piece => exact ⟨Text.uppercase d ++ piece, by rw [List.cons_append, capitalize, List.append_assoc]⟩

theorem implementationName_snoc {name : String} {front : List Char} {c : Char} (h : name.toList = front ++ [c])
    (hregular : Assoc.get? name irregularIdentifiers = none) (hsep : (c == '_') = false)
    (hc : Text.uppercase c = [c]) : ∃ before, (implementationName name).toList = before ++ [c] := by
  obtain ⟨pieces, piece, hsplit⟩ := @Text.splitAt_snoc (· == '_') c hsep front
  obtain ⟨last, hlast⟩ := capitalize_snoc hc piece
  refine ⟨pieces.flatMap capitalize ++ last, ?_⟩
  rw [implementationName, hregular]
  simp only
  rw [String.toList_ofList, h, hsplit, List.flatMap_append, List.flatMap_singleton, hlast, List.append_assoc]

theorem name_of_known {d : CapabilityDirectory} {tool : Tool} (h : Tool.ofIdentifier? d.identifier = some tool) :
    ∃ front c, d.name.toList = front ++ [c] ∧ c ≠ '/' := by
  have hidentifier : ∃ tool ∈ Tool.all, tool.identifier = d.identifier :=
    ⟨tool, List.mem_of_find?_eq_some h, by simpa using List.find?_some h⟩
  have hlast : ∀ before : List Char, d.identifier.toList ≠ before ++ ['/'] := by
    obtain ⟨tool, -, htool⟩ := hidentifier
    intro before hbefore
    have hslash : tool.identifier.toList.getLast? = some '/' := by
      rw [htool, hbefore, List.getLast?_concat]
    revert hslash
    cases tool <;> decide
  rcases List.eq_nil_or_concat d.name.toList with hname | ⟨front, c, hname⟩
  · have hempty : d.name = "" := String.toList_inj.mp hname
    obtain ⟨tool, -, htool⟩ := hidentifier
    rw [CapabilityDirectory.identifier, hempty] at htool
    refine absurd htool ?_
    cases tool <;> decide
  · rw [List.concat_eq_append] at hname
    refine ⟨front, c, hname, ?_⟩
    rintro rfl
    cases hirregular : Assoc.get? d.name irregularIdentifiers with
    | some identifier =>
      have hmem := Assoc.mem_of_get? hirregular
      simp only [irregularIdentifiers, List.mem_cons, Prod.mk.injEq, List.not_mem_nil, or_false] at hmem
      have hlast : d.name.toList.getLast? = some '/' := by rw [hname, List.getLast?_concat]
      rcases hmem with ⟨hd, -⟩ | ⟨hd, -⟩
      · rw [hd] at hlast
        revert hlast
        decide
      · rw [hd] at hlast
        revert hlast
        decide
    | none =>
      obtain ⟨before, hbefore⟩ := implementationName_snoc hname hirregular (by decide) (by decide)
      exact hlast before hbefore

namespace Registry

def toolsUnder (r : Registry) (d : CapabilityDirectory) : List String :=
  (r.all.filter fun f => f.kind = .tool ∧ (d.fragmentPath ++ "/").toList <+: f.name.toList).map (·.name)

theorem toolsBelow_eq (r : Registry) {d : CapabilityDirectory} {tool : Tool}
    (h : Tool.ofIdentifier? d.identifier = some tool) : r.toolsBelow d.fragmentPath = r.toolsUnder d := by
  obtain ⟨front, c, hname, hc⟩ := name_of_known h
  have hpath : d.fragmentPath.toList = (d.owner ++ "/").toList ++ front ++ [c] := by
    have happend : d.fragmentPath = d.owner ++ "/" ++ d.name := rfl
    rw [happend, String.toList_append, hname, List.append_assoc]
  have htrim : (d.fragmentPath.toList.reverse.dropWhile (· == '/')).reverse = d.fragmentPath.toList := by
    rw [hpath, List.reverse_append, List.reverse_singleton, List.singleton_append,
      List.dropWhile_cons_of_neg (by simpa using hc), List.reverse_cons, List.reverse_reverse]
  have hbelow : (d.fragmentPath ++ "/").toList = d.fragmentPath.toList ++ ['/'] := String.toList_append
  unfold toolsBelow toolsUnder
  rw [htrim, hbelow]
  refine congrArg (List.map Fragment.name) (List.filter_congr fun f _ => ?_)
  rw [Bool.eq_iff_iff, Bool.and_eq_true, beq_iff_eq, Text.after?_isSome, decide_eq_true_eq]

/-! ## Discovered registries -/

def cached (r : Registry) : Registry := { r with caching := true }

theorem Named.foldl_insert : ∀ (fragments : List Fragment) {r : Registry}, r.Named →
    (fragments.foldl (fun r f => r.insert f) r).Named
  | [], _, h => h
  | f :: fragments, _, h => Named.foldl_insert fragments (h.insert f)

theorem foldl_insert (caching : Bool) : ∀ (fragments : List Fragment) (r : Registry),
    fragments.foldl (fun r f => r.insert f) { r with caching } =
      { fragments.foldl (fun r f => r.insert f) r with caching }
  | [], _ => rfl
  | f :: fragments, r => foldl_insert caching fragments (r.insert f)

def toolScripts (toolsDir : String) (files : FileTree) : Except ControlError (List (List Fragment)) :=
  (files.directoriesAt toolsDir).mapM fun (owner, _) => ownerScripts (FileTree.join toolsDir owner) owner files

theorem discover_eq (libraryDir toolsDir : String) (caching : Bool) (files : FileTree) :
    discover libraryDir toolsDir caching files = (do
      let libraries ← scriptsAt libraryDir .library id files
      let tools ← toolScripts toolsDir files
      return (libraries ++ tools.flatten).foldl (fun r f => r.insert f) (empty caching)) := rfl

/-- A registry that was found holds every fragment under its name; with caching on the same one is
found. -/
theorem discover_ok {libraryDir toolsDir : String} {caching : Bool} {files : FileTree} {r : Registry}
    (h : discover libraryDir toolsDir caching files = .ok r) :
    r.Named ∧ r.caching = caching ∧ discover libraryDir toolsDir true files = .ok r.cached := by
  rw [discover_eq] at h ⊢
  cases hlibraries : scriptsAt libraryDir .library id files with
  | error e => rw [hlibraries] at h; cases h
  | ok libraries =>
    rw [hlibraries] at h
    cases htools : toolScripts toolsDir files with
    | error e => rw [htools] at h; cases h
    | ok tools =>
      rw [htools] at h
      cases h
      refine ⟨.foldl_insert _ (named_empty caching), ?_, ?_⟩
      · exact congrArg Registry.caching (foldl_insert caching _ (empty caching))
      · exact congrArg Except.ok (foldl_insert true _ (empty caching))

end Registry

/-! ## Loading -/

namespace Session

theorem onConsole_ok {α : Type} {x : Action (Console σ) α} {a : α} {s s' : Session σ}
    (h : onConsole x s = (.ok a, s')) : x s.console = (.ok a, s'.console) ∧ s' = { s with console := s'.console } := by
  unfold onConsole Action.zoom at h
  cases hx : x s.console with
  | mk outcome c =>
    rw [hx] at h
    cases h
    exact ⟨rfl, rfl⟩

/-- Loading a directory installs its scripts and binds it for every agent. -/
theorem exists_of_loadDirectory {d : CapabilityDirectory} {s s' : Session σ} (h : loadDirectory d s = (.ok (), s')) :
    ∃ tool n c contexts namespaces, Tool.ofIdentifier? d.identifier = some tool ∧
      Console.installTools d.fragmentPath s.console = (.ok n, c) ∧ Loads [d] s.namespaces namespaces ∧
      s' = { s with console := { c with contexts }, namespaces } := by
  unfold loadDirectory at h
  cases htool : Tool.ofIdentifier? d.identifier with
  | none => rw [htool] at h; cases h
  | some tool =>
    rw [htool] at h
    obtain ⟨n, s₁, hinstall, h⟩ := Action.exists_of_bind_ok h
    obtain ⟨hconsole, hs₁⟩ := onConsole_ok hinstall
    obtain ⟨namespaces, contexts, hmap, hloads⟩ := mapM_bind_loads htool s₁.namespaces s₁
    rw [Action.read_bind, Action.bind_ok hmap] at h
    cases h
    rw [hs₁] at hloads
    exact ⟨tool, n, s₁.console, contexts, namespaces, rfl, hconsole, hloads, by rw [hs₁]⟩

theorem loadDirectory_ok {d : CapabilityDirectory} {s s' : Session σ} (hn : s.console.registry.Named)
    (h : loadDirectory d s = (.ok (), s')) : (Tool.ofIdentifier? d.identifier).isSome = true ∧
      s.console.Told (Console.round (s.console.registry.due (s.console.registry.toolsUnder d))) s'.console ∧
      s'.console.registry = s.console.registry.installed (s.console.registry.toolsUnder d) ∧
      ∀ name ∈ s.console.registry.toolsUnder d, (s.console.registry.get? name).isSome = true := by
  obtain ⟨tool, n, c, contexts, namespaces, htool, hinstall, -, rfl⟩ := exists_of_loadDirectory h
  obtain ⟨htold, hregistry, hknown⟩ := Console.installTools_ok hn hinstall
  rw [Registry.toolsBelow_eq _ htool] at htold hregistry hknown
  exact ⟨by rw [htool]; rfl, ⟨htold.said, htold.config, htold.files⟩, hregistry, hknown⟩

end Session

namespace Registry

def installedAll (lists : List (List String)) (r : Registry) : Registry :=
  lists.foldl (fun r names => r.installed names) r

theorem installedAll_cons (names : List String) (lists : List (List String)) (r : Registry) :
    r.installedAll (names :: lists) = (r.installed names).installedAll lists := rfl

theorem get?_installedAll (name : String) : ∀ (lists : List (List String)) (r : Registry),
    (r.installedAll lists).get? name = r.get? name
  | [], _ => rfl
  | names :: lists, r => get?_installedAll name lists (r.installed names)

end Registry

namespace Session

theorem forM_loadDirectory_ok : ∀ (ds : List CapabilityDirectory) {s s' : Session σ}, s.console.registry.Named →
    ds.forM loadDirectory s = (.ok (), s') →
      (∀ d ∈ ds, (Tool.ofIdentifier? d.identifier).isSome = true ∧
        ∀ name ∈ s.console.registry.toolsUnder d, (s.console.registry.get? name).isSome = true) ∧
      s.console.Told (s.console.registry.rounds (ds.map s.console.registry.toolsUnder)) s'.console ∧
      s'.console.registry = s.console.registry.installedAll (ds.map s.console.registry.toolsUnder)
  | [], s, s', _, h => by
    cases h
    exact ⟨by simp, .nil _, rfl⟩
  | d :: ds, s, s', hn, h => by
    obtain ⟨u, s₁, hd, h⟩ := Action.exists_of_bind_ok h
    obtain ⟨htool, htold, hregistry, hknown⟩ := loadDirectory_ok hn hd
    have hn₁ : s₁.console.registry.Named := by rw [hregistry]; exact hn
    obtain ⟨hall, htold', hregistry'⟩ := forM_loadDirectory_ok ds hn₁ h
    have hunder : s₁.console.registry.toolsUnder = s.console.registry.toolsUnder := by rw [hregistry]; rfl
    rw [hunder, hregistry] at hall htold' hregistry'
    refine ⟨fun d' hd' => ?_, htold.append htold', hregistry'⟩
    rcases List.mem_cons.mp hd' with rfl | hd'
    · exact ⟨htool, hknown⟩
    · exact hall d' hd'

theorem load_ok {s s' : Session σ} {n : Nat} {ds : List CapabilityDirectory} (hn : s.console.registry.Named)
    (hds : CapabilityDirectory.discover s.console.config.scripts.toolsDir s.console.files = ds)
    (h : load s = (.ok n, s')) :
    (∀ d ∈ ds, (Tool.ofIdentifier? d.identifier).isSome = true ∧
        ∀ name ∈ s.console.registry.toolsUnder d, (s.console.registry.get? name).isSome = true) ∧
      s.console.Told (s.console.registry.rounds (ds.map s.console.registry.toolsUnder)) s'.console ∧
      s'.console.registry = s.console.registry.installedAll (ds.map s.console.registry.toolsUnder) := by
  unfold load at h
  rw [Action.read_bind, hds] at h
  obtain ⟨u, s₁, hload, h⟩ := Action.exists_of_bind_ok h
  cases h
  exact forM_loadDirectory_ok _ hn hload

/-! ## Coming up -/

/-- What is installed when a session comes up: the libraries, and the tools of each capability. -/
def wanted (config : Config) (files : FileTree) (registry : Registry) : List (List String) :=
  config.scripts.bootstrapLibraries ::
    (CapabilityDirectory.discover config.scripts.toolsDir files).map registry.toolsUnder

/-- A session that came up: the fingerprints were asked for or dropped, and what was wanted was installed
in rounds, all of it answered. -/
structure CameUp (config : Config) (files : FileTree) (wire : Wire σ) (registry : Registry) (reply : String)
    (mirror : List (String × String)) (said : List (String × String)) (s : Session σ) : Prop where
  discovered : Registry.discover config.scripts.libraryDir config.scripts.toolsDir config.scripts.caching files =
    .ok registry
  opens : Console.Opens config.scripts.caching reply mirror
  answered : wire.Answered ((Console.opening config.scripts.caching, reply) :: said) s.console.wire
  rounds : said.map Prod.fst = (registry.mirroring mirror).rounds (wanted config files registry)
  installed : s.console.registry = (registry.mirroring mirror).installedAll (wanted config files registry)
  libraries : ∀ name ∈ config.scripts.bootstrapLibraries, ∃ f, registry.get? name = some f ∧ f.kind = .library
  implemented : ∀ d ∈ CapabilityDirectory.discover config.scripts.toolsDir files,
    (Tool.ofIdentifier? d.identifier).isSome = true
  known : ∀ names ∈ wanted config files registry, ∀ name ∈ names, (registry.get? name).isSome = true

theorem start_eq {config : Config} {files : FileTree} {hooks : Hooks} {wire : Wire σ} {registry : Registry}
    (hvalid : config.validate = .ok ()) (hdiscover : Registry.discover config.scripts.libraryDir config.scripts.toolsDir
      config.scripts.caching files = .ok registry) :
    start config files hooks wire = (match comeUp (new (.new config files registry wire) hooks) with
      | (.ok (), s) => .ok (.ok (), s)
      | (failure, s) => .ok (failure, (close s).2)) := by
  unfold start
  rw [hvalid, hdiscover]
  rfl

theorem start_ok {config : Config} {files : FileTree} {hooks : Hooks} {wire : Wire σ} {s : Session σ}
    (h : start config files hooks wire = .ok (.ok (), s)) : config.validate = .ok () ∧
      ∃ registry, Registry.discover config.scripts.libraryDir config.scripts.toolsDir config.scripts.caching files =
        .ok registry ∧ comeUp (new (.new config files registry wire) hooks) = (.ok (), s) := by
  cases hvalid : config.validate with
  | error e =>
    unfold start at h
    rw [hvalid] at h
    cases h
  | ok u =>
    cases hdiscover : Registry.discover config.scripts.libraryDir config.scripts.toolsDir config.scripts.caching files with
    | error e =>
      unfold start at h
      rw [hvalid, hdiscover] at h
      cases h
    | ok registry =>
      rw [start_eq hvalid hdiscover] at h
      refine ⟨rfl, registry, rfl, ?_⟩
      cases hcome : comeUp (new (.new config files registry wire) hooks) with
      | mk outcome s' =>
        rw [hcome] at h
        cases outcome with
        | ok u => cases h; rfl
        | error e => cases h
        | crash c => cases h

theorem comeUp_ok {s s' : Session σ} (h : comeUp s = (.ok (), s')) : ∃ s₁ n s₂,
    Console.bootstrap s.console = (.ok (), s₁.console) ∧ load s₁ = (.ok n, s₂) ∧ s'.console = s₂.console := by
  obtain ⟨u, s₁, hbootstrap, h⟩ := Action.exists_of_bind_ok h
  obtain ⟨n, s₂, hload, h⟩ := Action.exists_of_bind_ok h
  cases h
  exact ⟨s₁, n, s₂, (onConsole_ok hbootstrap).1, hload, rfl⟩

theorem start_cameUp {config : Config} {files : FileTree} {hooks : Hooks} {wire : Wire σ} {s : Session σ}
    (h : start config files hooks wire = .ok (.ok (), s)) :
    ∃ registry reply mirror said, CameUp config files wire registry reply mirror said s := by
  obtain ⟨-, registry, hdiscover, hcome⟩ := start_ok h
  obtain ⟨hn, hcaching, -⟩ := Registry.discover_ok hdiscover
  obtain ⟨s₁, n, s₂, hbootstrap, hload, hconsole⟩ := comeUp_ok hcome
  obtain ⟨r, mirror, c₁, hsend, hopens, hc₁, htold, hinstalled, hlibraries⟩ :=
    Console.bootstrap_ok (c := .new config files registry wire) hn hbootstrap
  have hregistry : c₁.registry = registry.mirroring mirror := by rw [hc₁]; rfl
  have hconfig : s₁.console.config = config := by rw [htold.config, hc₁]; rfl
  have hfiles : s₁.console.files = files := by rw [htold.files, hc₁]; rfl
  rw [hregistry] at htold hinstalled
  have hn₁ : s₁.console.registry.Named := by rw [hinstalled]; exact hn
  obtain ⟨hall, htold', hinstalled'⟩ := load_ok hn₁ (by rw [hconfig, hfiles]) hload
  have hunder : s₁.console.registry.toolsUnder = registry.toolsUnder := by rw [hinstalled]; rfl
  rw [hunder, hinstalled] at hall htold'
  have hfinal : s.console.registry = (registry.mirroring mirror).installedAll (wanted config files registry) := by
    rw [hconsole, hinstalled', hunder, hinstalled, wanted, Registry.installedAll_cons]
    rfl
  obtain ⟨said, hsaid, hanswered⟩ := (htold.append htold').said
  have hnew : (Console.new config files registry wire).registry.caching = config.scripts.caching := hcaching
  rw [hnew] at hsend hopens
  rw [← hconsole] at hanswered
  refine ⟨registry, r.text, mirror, said, hdiscover, hopens, .cons hsend hanswered, hsaid, hfinal,
    hlibraries, fun d hd => (hall d hd).1, fun names hnames name hname => ?_⟩
  rcases List.mem_cons.mp hnames with rfl | hnames
  · obtain ⟨f, hf, -⟩ := hlibraries name hname
    have hget : registry.get? name = some f := hf
    rw [hget]
    rfl
  · obtain ⟨d, hd, rfl⟩ := List.mem_map.mp hnames
    exact (hall d hd).2 name hname

end Session

end RemoteConsole
