/-! Reading files: the ways in which it fails, and a folder of plain files in which paths
are looked up. -/
namespace ODataQuery

inductive FileError
  | notFound
  | isDirectory
  | notDirectory
  | nameTooLong
  | notText
  | other (message : String)
  deriving DecidableEq, Repr

def FileError.message : FileError → String
  | notFound => "No such file or directory (os error 2)"
  | isDirectory => "Is a directory (os error 21)"
  | notDirectory => "Not a directory (os error 20)"
  | nameTooLong => "File name too long (os error 36)"
  | notText => "stream did not contain valid UTF-8"
  | other message => message

def decodeText (bytes : ByteArray) : Except FileError String :=
  match String.fromUTF8? bytes with
  | some text => .ok text
  | none => .error .notText

/-- A folder that holds nothing but files, by name. -/
structure Folder where
  files : List (String × ByteArray)

namespace Folder

/-- The parts of a path that stay in the folder they are met in. -/
def staysIn (part : String) : Bool := part = "" || part = "."

def maxNameSize : Nat := 255

def maxPathSize : Nat := 4095

/-- Follows the parts of a path that lead out of the folder. Nothing is known there but
that the enclosing folders exist. -/
def readOutside : List String → Except FileError ByteArray
  | [] => .error .isDirectory
  | part :: rest =>
    if staysIn part ∨ part = ".." then readOutside rest
    else if maxNameSize < part.utf8ByteSize then .error .nameTooLong
    else .error .notFound

/-- Follows the parts of a path from inside the folder. -/
def readParts (folder : Folder) : List String → Except FileError ByteArray
  | [] => .error .isDirectory
  | part :: rest =>
    if staysIn part then folder.readParts rest
    else if part = ".." then readOutside rest
    else if maxNameSize < part.utf8ByteSize then .error .nameTooLong
    else
      match folder.files.lookup part with
      | none => .error .notFound
      | some bytes => if rest = [] then .ok bytes else .error .notDirectory

def read (folder : Folder) (path : String) : Except FileError ByteArray :=
  if path = "" then .error .notFound
  else if maxPathSize < path.utf8ByteSize then .error .nameTooLong
  else if path.toList.head? = some '/' then readOutside (path.splitOn "/")
  else folder.readParts (path.splitOn "/")

end Folder
end ODataQuery
