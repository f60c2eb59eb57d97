/-!
# Files

Where the texts come from that commands read. The files of one directory are found
by paths from there: each step of a path names a file or a directory. Nothing is
known of the directories above but that they are there.
-/

namespace ShardQuery

inductive FileFault where
  | missing
  | denied
  | notDirectory
  | isDirectory
  | nameTooLong
  | badName
  | notText
  | other (message : String)
deriving DecidableEq

def FileFault.message : FileFault → String
  | missing => "No such file or directory (os error 2)"
  | denied => "Permission denied (os error 13)"
  | notDirectory => "Not a directory (os error 20)"
  | isDirectory => "Is a directory (os error 21)"
  | nameTooLong => "File name too long (os error 36)"
  | badName => "file name contained an unexpected NUL byte"
  | notText => "stream did not contain valid UTF-8"
  | other message => message

abbrev Files := String → Except FileFault String

/-- Where the steps of a path have led. -/
inductive Place where
  /-- The directory that paths start from. -/
  | start
  | above
  | file (text : String)

/-- The next step of a path; `texts` are the files at its start by name. -/
def Place.step (texts : String → Option String) (name : String) : Place → Except FileFault Place
  | file _ => .error .notDirectory
  | place =>
    if name = "" ∨ name = "." then .ok place
    else if name = ".." then .ok above
    else if 255 < name.utf8ByteSize then .error .nameTooLong
    else match place, texts name with
      | start, some text => .ok (file text)
      | _, _ => .error .missing

def Files.ofDirectory (texts : String → Option String) : Files := fun path => do
  if path.toList.contains '\x00' then throw .badName
  if path.isEmpty then throw .missing
  if 4095 < path.utf8ByteSize then throw .nameTooLong
  let origin := if path.toList.head? = some '/' then Place.above else .start
  match ← (path.splitOn "/").foldlM (fun place name => place.step texts name) origin with
  | .file text => return text
  | _ => throw .isDirectory

end ShardQuery
