/-! Why an operation has no result. Each cause is a constructor; the few causes that carry a wording of
their own have it in `Fault.message?`. -/
namespace Toolpath

inductive Fault where
  | divisionByZero
  /-- A whole number was asked of a value that is no number. -/
  | notANumber
  /-- A whole number was asked of an infinite value, or a number is too large to be a coordinate. -/
  | tooLarge
  /-- Sine, cosine or a remainder was asked outside its domain. -/
  | outsideDomain
  /-- Decimals were asked for in a count that is no natural number. -/
  | unusablePrecision
  | unsupportedEntity (kind : String)
  | waypointOutOfRange
  | noSuchHistory
  /-- The run stands before its first move. -/
  | noSuchMove
  | zeroSliceStep
  | noSuchTick
  | missingFile (path : String)
  | isFolder
  | notFolder
  | fileInTheWay
  | unusablePath
  | nameTooLong
  | malformedUtf8
  | unknownLogMode (quoted : String)
  | unknownLogLevel
  /-- A message asks for an argument that has no such name. -/
  | unknownName
  | unknownDiagnosticWord
  /-- The moment lies outside the years 1 to 9999. -/
  | momentOutOfRange
  /-- The year of the moment is not even a machine integer. -/
  | momentBeyondCalendar
  /-- A text does not read as the number that it stands for, or does not form a message. -/
  | unreadableText
  /-- An integer has more digits than one may be written with. -/
  | overlongInteger
  | tooDeep
  | notAText
  /-- A value is of a kind that its use does not admit. -/
  | unsuitableValue
  deriving DecidableEq

def Fault.message? : Fault → Option String
  | .unsupportedEntity kind => some ("Unsupported entity type: " ++ kind)
  | .waypointOutOfRange => some "waypoint index out of range"
  | .unknownLogMode quoted => some ("Unknown log format mode: " ++ quoted)
  | _ => none

end Toolpath
