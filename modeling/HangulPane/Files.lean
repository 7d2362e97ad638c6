namespace HangulPane

/-!
A folder of files, as far as the tools see it, and the ways in which reading and
writing a file fail.

Paths are taken relative to the folder.  A path names folders and a file in them,
separated by slashes; a folder exists if some file lies in it.
-/

/-- Why a file cannot be read or written. -/
inductive FileFault where
  | missing
  /-- A file stands where the path needs a folder. -/
  | notFolder
  /-- A folder stands where the path needs a file. -/
  | isFolder
  /-- Any other reason that the system gives. -/
  | other (reason : String)
  deriving DecidableEq, Repr

namespace FileFault

def message : FileFault -> String
  | .missing => "No such file or directory (os error 2)"
  | .notFolder => "Not a directory (os error 20)"
  | .isFolder => "Is a directory (os error 21)"
  | .other reason => reason

end FileFault

/-- The files of a folder, each with its path and its contents. -/
structure Folder where
  files : List (List String × List UInt8)
  deriving DecidableEq

namespace Folder

/-- The parts of a path between its slashes. -/
def splitPath : List Char -> List (List Char)
  | [] => [[]]
  | c :: rest =>
      if c = '/' then
        [] :: splitPath rest
      else
        match splitPath rest with
        | [] => [[c]]
        | part :: later => (c :: part) :: later

/-- The names along a path.  Empty parts and parts that stay in place name
nothing. -/
def namesOf (path : String) : List String :=
  ((splitPath path.toList).map String.ofList).filter fun part => part != "" && part != "."

/-- Whether a path is one of a folder even if its last name is that of a file. -/
def demandsFolder (path : String) : Bool :=
  match ((splitPath path.toList).map String.ofList).getLast? with
  | some part => part == "" || part == "."
  | none => true

def staysInside (path : String) : Bool :=
  path != "" && path.toList.head? != some '/' && !(namesOf path).contains ".."

def isFolderAt (folder : Folder) (names : List String) : Bool :=
  names.isEmpty || folder.files.any fun file =>
    names.isPrefixOf file.1 && file.1.length != names.length

/-- The contents of the file that the names lead to. -/
def find? (folder : Folder) (names : List String) : Option (List UInt8) :=
  folder.files.lookup names

/-- Whether a file stands where the names need a folder. -/
def isBlocked (folder : Folder) (names : List String) : Bool :=
  folder.files.any fun file => file.1.isPrefixOf names && file.1.length != names.length

def read (folder : Folder) (path : String) : Except FileFault (List UInt8) :=
  let names := namesOf path
  if !staysInside path then .error .missing
  else if folder.isFolderAt names then .error .isFolder
  else if folder.isBlocked names then .error .notFolder
  else
    match folder.find? names with
    | none => .error .missing
    | some bytes => if demandsFolder path then .error .notFolder else .ok bytes

/-- The folder with a file put in place of the one with the same path, or added. -/
def put (names : List String) (bytes : List UInt8) :
    List (List String × List UInt8) -> List (List String × List UInt8)
  | [] => [(names, bytes)]
  | file :: later =>
      if file.1 = names then (names, bytes) :: later else file :: put names bytes later

def write (folder : Folder) (path : String) (bytes : List UInt8) :
    Except FileFault Folder :=
  let names := namesOf path
  if !staysInside path then .error .missing
  else if folder.isFolderAt names then .error .isFolder
  else if folder.isBlocked names then .error .notFolder
  else if demandsFolder path then
    .error (if (folder.find? names).isSome then .notFolder else .isFolder)
  else if folder.isFolderAt names.dropLast then
    .ok { files := put names bytes folder.files }
  else
    .error .missing

def ofList (files : List (String × List UInt8)) : Folder where
  files := files.map fun file => (namesOf file.1, file.2)

end Folder
end HangulPane
