import RemoteConsole.Assoc
import RemoteConsole.Text.Search

/-!
# File trees

A file tree is a file with its bytes or a directory with its entries in the order of their names.
Paths are texts with slashes; an absolute path starts at the root of the tree, and so does a
relative one.
-/

namespace RemoteConsole

inductive FileTree where
  | file (bytes : List UInt8)
  | directory (entries : List (String × FileTree))
deriving Inhabited

namespace FileTree

def empty : FileTree := directory []

/-- The names on a path. Empty names and single dots go nowhere, and two dots go back. -/
def segments (path : String) : List String :=
  ((Text.splitAt (· == '/') path.toList).foldl (fun (back : List String) name =>
    if name.isEmpty || name == ['.'] then back
    else if name == ['.', '.'] then back.tail
    else String.ofList name :: back) []).reverse

def join (path name : String) : String :=
  if path.isEmpty || path.toList.getLast? == some '/' then path ++ name else s!"{path}/{name}"

def find? : List String → FileTree → Option FileTree
  | [], t => some t
  | name :: rest, directory entries => (Assoc.get? name entries).bind (find? rest)
  | _ :: _, file _ => none

def at? (path : String) (t : FileTree) : Option FileTree := t.find? (segments path)

/-- Puts a tree at a place; directories on the way are made, and a file on the way is replaced. -/
def putAt : List String → FileTree → FileTree → FileTree
  | [], new, _ => new
  | name :: rest, new, t =>
    let entries := match t with
      | directory entries => entries
      | file _ => []
    directory (Assoc.putOrdered name (putAt rest new ((Assoc.get? name entries).getD empty)) entries)

def removeAt : List String → FileTree → FileTree
  | [], _ => empty
  | [name], directory entries => directory (Assoc.erase name entries)
  | name :: rest, directory entries =>
    match Assoc.get? name entries with
    | some t => directory (Assoc.putOrdered name (removeAt rest t) entries)
    | none => directory entries
  | _, t => t

def write (path : String) (bytes : List UInt8) (t : FileTree) : FileTree :=
  putAt (segments path) (file bytes) t

def makeDirectory (path : String) (t : FileTree) : FileTree :=
  match t.at? path with
  | some (directory _) => t
  | _ => putAt (segments path) empty t

def remove (path : String) (t : FileTree) : FileTree := removeAt (segments path) t

def entriesAt (path : String) (t : FileTree) : List (String × FileTree) :=
  match t.at? path with
  | some (directory entries) => entries
  | _ => []

def isDirectory : FileTree → Bool
  | directory _ => true
  | file _ => false

def directoriesAt (path : String) (t : FileTree) : List (String × FileTree) :=
  (t.entriesAt path).filter (·.2.isDirectory)

def filesAt (path : String) (t : FileTree) : List (String × List UInt8) :=
  (t.entriesAt path).filterMap fun
    | (name, file bytes) => some (name, bytes)
    | (_, directory _) => none

end FileTree

def splitExtension (name : String) : String × Option String :=
  let reversed := name.toList.reverse
  let extension := reversed.takeWhile (· != '.')
  match reversed.dropWhile (· != '.') with
  | _ :: c :: stem => (String.ofList (c :: stem).reverse, some (String.ofList extension.reverse))
  | _ => (name, none)

def fileStem (name : String) : String := (splitExtension name).1

def fileExtension? (name : String) : Option String := (splitExtension name).2

end RemoteConsole
