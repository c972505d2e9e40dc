import KaleidoscopeFrontEnd.Text.Lines
import KaleidoscopeFrontEnd.Text.Quoted

namespace KaleidoscopeFrontEnd

inductive ReadFault where
  | missing (path : String)
  | isDirectory (path : String)
  | notDirectory (path : String)
  | nameTooLong (path : String)
  | nullInPath
  | notText
  deriving DecidableEq

namespace ReadFault

def numbered (number : Nat) (reason path : String) : String :=
  "[Errno " ++ toString number ++ "] " ++ reason ++ ": " ++ quoted path

def message : ReadFault → String
  | .missing path => numbered 2 "No such file or directory" path
  | .isDirectory path => numbered 21 "Is a directory" path
  | .notDirectory path => numbered 20 "Not a directory" path
  | .nameTooLong path => numbered 36 "File name too long" path
  | .nullInPath => "embedded null byte"
  | .notText => "invalid UTF-8"

-- The other faults are not about opening a file, and nothing that expects this one handles them.
def isRefusal : ReadFault → Bool
  | .nullInPath => false
  | .notText => false
  | _ => true

end ReadFault

inductive FolderEntry where
  | file (bytes : ByteArray)
  | directory

abbrev Folder := List (String × FolderEntry)

namespace Folder

def steps (path : String) : List String :=
  (path.splitOn "/").filter fun step => step != "" && step != "."

def endsInDirectory (path : String) : Bool :=
  match (path.splitOn "/").getLast? with
  | some last => last == "" || last == "."
  | none => false

def ownEntry? (folder : Folder) (place : List String) : Option FolderEntry :=
  match folder.find? fun named => steps named.1 == place with
  | some named => some named.2
  | none =>
      if place.isEmpty || folder.any (fun named => place.isPrefixOf (steps named.1)) then
        some .directory
      else none

-- The folder has no name that a path could mention: only the starting point of a relative path leads into it.
def home : List String := ["tmp",""]

def surroundings : List (List String × FolderEntry) :=
  [([],.directory),(["bin"],.directory),(["dev"],.directory),(["dev","null"],.file .empty),
    (["etc"],.directory),(["home"],.directory),(["tmp"],.directory),
    (["usr"],.directory),(["var"],.directory)]

def entry? (folder : Folder) (place : List String) : Option FolderEntry :=
  if home.isPrefixOf place then folder.ownEntry? (place.drop home.length)
  else surroundings.lookup place

def nameLimit : Nat := 255

def pathLimit : Nat := 4096

def find (folder : Folder) (path : String) (place : List String) :
    List String → Except ReadFault FolderEntry
  | [] =>
      match folder.entry? place with
      | some entry => .ok entry
      | none => .error (.missing path)
  | step :: later =>
      match folder.entry? place with
      | none => .error (.missing path)
      | some (.file _) => .error (.notDirectory path)
      | some .directory =>
          if step == ".." then folder.find path place.dropLast later
          else if nameLimit < step.utf8ByteSize then .error (.nameTooLong path)
          else folder.find path (place ++ [step]) later

def startOf (path : String) : List String := if path.toList.head? == some '/' then [] else home

def content (folder : Folder) (path : String) : Except ReadFault ByteArray :=
  if path.toList.contains '\x00' then .error .nullInPath
  else if path = "" then .error (.missing path)
  else if pathLimit ≤ path.utf8ByteSize then .error (.nameTooLong path)
  else
    match folder.find path (startOf path) (steps path) with
    | .error fault => .error fault
    | .ok .directory => .error (.isDirectory path)
    | .ok (.file bytes) =>
        if endsInDirectory path then .error (.notDirectory path) else .ok bytes

end Folder

-- Strict UTF-8. A byte order mark is a character like any other.
def textOfBytes (bytes : ByteArray) : Except ReadFault (List Char) :=
  match String.fromUTF8? bytes with
  | some text => .ok (unifyLineEnds text.toList)
  | none => .error .notText

def textOfContent (content : Except ReadFault ByteArray) : Except ReadFault (List Char) :=
  content.bind textOfBytes

end KaleidoscopeFrontEnd
