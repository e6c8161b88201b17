/-!
The fixed values of the program: names of files it writes, texts it shows and places it looks in.
-/
namespace InkPreview.Settings

def compilerName : String := "inklecate"

/-- Where a compiler may be installed, in the order in which the places are tried. -/
def searchPaths : List String :=
  ["/opt/homebrew/bin/inklecate", "/usr/local/bin/inklecate", "/usr/bin/inklecate"]

def scratchPrefix : String := "inkies-"
def scratchSource : String := "story.ink"
def scratchOutput : String := "story.json"

/-- The quiet time before a compile, in millionths of a second. -/
def quietMicros : Nat := 600000

/-- How a compiled story starts. -/
def storyMark : Char := '\x7b'

/-- What stands before a compiler's message in the payload of the page. -/
def errorPrefix : String := "COMPILER_ERROR:"

def runtimeUrl : String := "https://unpkg.com/inkjs/dist/ink.js"

def pageTemplate : String := "preview.html"
def previewTitle : String := "Ink Preview"

def sourceFile : String := "Story.ink"
def compiledFile : String := "story.json"
def webFile : String := "index.html"
def exportErrorTitle : String := "Compiler Error"

def logFormat : String := "[%(name)s] %(message)s"

/-- How much of a source a log line shows. -/
def logSourceLimit : Nat := 80

end InkPreview.Settings
