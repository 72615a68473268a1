/-! Log entries: what the library notes while it works, in order. -/
namespace Toolpath.Log

structure Entry where
  level : Int
  source : String
  message : String
  deriving DecidableEq

def debugLevel : Int := 10
def infoLevel : Int := 20
def warningLevel : Int := 30
def errorLevel : Int := 40
def criticalLevel : Int := 50

def debug (source message : String) : Entry := ⟨debugLevel, source, message⟩
def info (source message : String) : Entry := ⟨infoLevel, source, message⟩
def warning (source message : String) : Entry := ⟨warningLevel, source, message⟩
def error (source message : String) : Entry := ⟨errorLevel, source, message⟩

end Toolpath.Log
