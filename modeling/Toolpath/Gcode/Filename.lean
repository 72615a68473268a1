import Toolpath.Text.Blank
import Toolpath.Text.Upper

/-! Names for files of programs. A name with one of the known endings, in any letter case, stays; any other gets
the usual ending; an empty one becomes the default name. -/
namespace Toolpath.Gcode

def extensions : List String := [".gcode", ".nc", ".ngc", ".txt"]

def defaultFilename : String := "untitled.gcode"

def endsWith (name : List Char) (ending : String) : Bool :=
  ending.toList.isSuffixOf (Text.lowerAscii name)

def normalFilename (name : List Char) : List Char :=
  let name := Text.trim name
  if name = [] then defaultFilename.toList
  else if extensions.any (endsWith name) then name
  else name ++ ".gcode".toList

def filenameForDrawing (name : List Char) : List Char :=
  let name := Text.trim name
  normalFilename (if endsWith name ".dxf" then name.take (name.length - 4) else name)

end Toolpath.Gcode
