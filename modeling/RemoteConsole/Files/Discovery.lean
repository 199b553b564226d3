import RemoteConsole.Error
import RemoteConsole.Files.Tree
import RemoteConsole.Script.Registry
import RemoteConsole.Text.Uppercase

/-!
# Discovery

Libraries are the script files of one directory. Tools lie in a directory of their capability,
which lies in a directory of its owner. A capability is what an agent or an admin owns and what
has both a server and a client file; it is loaded in the order of owners and names.
-/

namespace RemoteConsole

open Script (Fragment)

def scriptsAt (path : String) (kind : Script.Kind) (nameOf : String → String) (files : FileTree) :
    Except ControlError (List Fragment) :=
  ((files.filesAt path).filter fun (name, _) => fileExtension? name == some "lua").mapM
    fun (name, bytes) =>
      match Text.Utf8.decode? bytes with
      | some content => .ok ⟨nameOf (fileStem name), kind, String.ofList content⟩
      | none => .error .unreadable

def ownerScripts (path owner : String) (files : FileTree) : Except ControlError (List Fragment) :=
  List.flatten <$> (files.directoriesAt path).mapM fun (capability, _) =>
    scriptsAt (FileTree.join path capability) .tool
      (fun stem => s!"{fileStem owner}/{fileStem capability}/{stem}") files

namespace Registry

def discover (libraryDir toolsDir : String) (caching : Bool) (files : FileTree) :
    Except ControlError Registry := do
  let libraries ← scriptsAt libraryDir .library id files
  let tools ← (files.directoriesAt toolsDir).mapM fun (owner, _) =>
    ownerScripts (FileTree.join toolsDir owner) owner files
  return (libraries ++ tools.flatten).foldl (fun r f => r.insert f) (Registry.empty caching)

end Registry

inductive Visibility where
  | everyone
  | admin
deriving DecidableEq, Repr

structure CapabilityDirectory where
  owner : String
  name : String
  path : String
  visibility : Visibility
deriving DecidableEq, Repr

/-- The names of implementations that do not follow the rule. -/
def irregularIdentifiers : List (String × String) :=
  [("place_entity_next_to", "PlaceNextTo"), ("pickup_entity", "PickUpEntity")]

def capitalize : List Char → List Char
  | [] => []
  | c :: cs => Text.uppercase c ++ cs

/-- The name of an implementation: the parts between underscores joined, each with an upper-case
first letter. -/
def implementationName (name : String) : String :=
  match Assoc.get? name irregularIdentifiers with
  | some irregular => irregular
  | none => String.ofList ((Text.splitAt (· == '_') name.toList).flatMap capitalize)

namespace CapabilityDirectory

def identifier (d : CapabilityDirectory) : String := implementationName d.name

def fragmentPath (d : CapabilityDirectory) : String := s!"{d.owner}/{d.name}"

def hasStem (stem path : String) (files : FileTree) : Bool :=
  (files.filesAt path).any fun (name, _) => fileStem name == stem

def ownedBy (owner : String) (visibility : Visibility) (toolsDir : String) (files : FileTree) :
    List CapabilityDirectory :=
  let path := FileTree.join toolsDir owner
  ((files.directoriesAt path).map fun (name, _) => ⟨owner, name, FileTree.join path name, visibility⟩).filter
    fun d => hasStem "server" d.path files && hasStem "client" d.path files

def discover (toolsDir : String) (files : FileTree) : List CapabilityDirectory :=
  ownedBy "agent" .everyone toolsDir files ++ ownedBy "admin" .admin toolsDir files

end CapabilityDirectory

end RemoteConsole
