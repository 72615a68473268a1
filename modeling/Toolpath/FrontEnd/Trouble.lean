import Toolpath.Files
import Toolpath.Text.Quoted

/-! Why a file cannot be opened or saved, in the words that are shown and noted: those of the operating system with
the path that it was asked for, or where a text is not encoded in UTF-8. -/
namespace Toolpath

def Fault.systemText? : Fault → Option String
  | .missingFile _ => some "[Errno 2] No such file or directory"
  | .notFolder => some "[Errno 20] Not a directory"
  | .isFolder => some "[Errno 21] Is a directory"
  | .nameTooLong => some "[Errno 36] File name too long"
  | _ => none

/-- A single byte is shown, several only by their places. -/
def Text.Utf8Fault.text (fault : Utf8Fault) (bytes : List UInt8) : String :=
  let what :=
    if fault.count = 1 then
      "byte 0x" ++ String.ofList (hexText 2 (bytes.getD fault.start 0).toNat) ++
        " in position " ++ toString fault.start
    else
      "bytes in position " ++ toString fault.start ++ "-" ++ toString (fault.start + fault.count - 1)
  "'utf-8' codec can't decode " ++ what ++ ": " ++ fault.reason

/-- What is wrong with the file at a path, if the fault is one of files. -/
def troubleText? (store : FileStore) (path : List Char) : Fault → Option String
  | .malformedUtf8 => do
    let bytes ← (store.read? path).toOption
    let fault ← Text.firstFault? bytes
    return fault.text bytes
  | fault => fault.systemText?.map fun said => said ++ ": " ++ String.ofList (Text.quoted (Path.normal path))

end Toolpath
