import InkPreview.Text.Blank
import InkPreview.Text.Case
/-!
Ready-made pieces of ink, in named groups, as the editor's menu offers them.
-/
namespace InkPreview

structure Snippet where
  name : String
  ink : String
  deriving DecidableEq, Repr

structure SnippetGroup where
  name : String
  snippets : List Snippet
  deriving DecidableEq, Repr

namespace Snippet

def basicStructure : SnippetGroup := ⟨"Basic structure", [
    ⟨"Knot (main section)", String.join [
      "=== knotName ===\n",
      "This is the content of the knot.\n",
      "-> END\n"]⟩,
    ⟨"Stitch (sub-section)", String.join [
      "= stitchName\n",
      "This is the content of the stitch that should be embedded within a knot.\n",
      "-> END\n"]⟩,
    ⟨"Divert", "-> targetKnotName"⟩,
    ⟨"Ending indicator", "-> END\n"⟩]⟩

def choices : SnippetGroup := ⟨"Choices", [
    ⟨"Basic Choice", "* This is a choice that can only be chosen once\n"⟩,
    ⟨"Sticky choice", "+ This is a sticky choice - the player can choose it more than once\n"⟩,
    ⟨"Choice without printing", "* [A choice where the content isn't printed after choosing]\n"⟩,
    ⟨"Choice with mixed output", "* Try [it] this example!\n"⟩]⟩

def variableGroup : SnippetGroup := ⟨"Variables", [
    ⟨"Global variable", "VAR myNumber = 5\n"⟩,
    ⟨"Temporary variable", "temp myTemporaryValue = 5\n"⟩,
    ⟨"Modify variable", "~ myNumber = myNumber + 1\n"⟩]⟩

def logic : SnippetGroup := ⟨"Logic", [
    ⟨"Inline condition", "\x7byourVariable: This is written if yourVariable is true|Otherwise this is written\x7d"⟩,
    ⟨"Multi-line condition", String.join [
      "\x7byourVariable:\n",
      "    This is written if yourVariable is true.\n",
      "  - else:\n",
      "    Otherwise this is written.\n",
      "\x7d\n"]⟩]⟩

def comments : SnippetGroup := ⟨"Comments", [
    ⟨"Single-line comment", "// This line is a comment.\n"⟩,
    ⟨"Block comment", String.join [
      "/* ---------------------------------\n",
      "\n",
      "   This whole section is a comment\n",
      "\n",
      " ----------------------------------*/\n"]⟩]⟩

def lists : SnippetGroup := ⟨"List-handling", [
    ⟨"List: pop", String.join [
      "=== function pop(ref list)\n",
      "    ~ temp x = LIST_MIN(list)\n",
      "    ~ list -= x\n",
      "    ~ return x\n"]⟩,
    ⟨"List: pop_random", String.join [
      "=== function pop_random(ref list)\n",
      "    ~ temp x = LIST_RANDOM(list)\n",
      "    ~ list -= x\n",
      "    ~ return x\n"]⟩,
    ⟨"List: list_item_is_member_of", String.join [
      "=== function list_item_is_member_of(item, list)\n",
      "    ~ return LIST_COUNT(list ^ item) > 0\n"]⟩]⟩

def functions : SnippetGroup := ⟨"Useful functions", [
    ⟨"Logic: maybe", String.join [
      "=== function maybe(p)\n",
      "    ~ return RANDOM(1, 100) <= p\n"]⟩,
    ⟨"Mathematics: abs", String.join [
      "=== function abs(x)\n",
      "\x7b x < 0:\n",
      "      ~ return -1 * x\n",
      "  - else:\n",
      "      ~ return x\n",
      "\x7d\n"]⟩,
    ⟨"Flow: came_from", String.join [
      "=== function came_from(-> x)\n",
      "    ~ return TURNS_SINCE(x) == 0\n"]⟩,
    ⟨"Flow: seen_very_recently", String.join [
      "=== function seen_very_recently(-> x)\n",
      "    ~ return TURNS_SINCE(x) >= 0 && TURNS_SINCE(x) <= 3\n"]⟩]⟩

def stories : SnippetGroup := ⟨"Full stories", [
    ⟨"Crime Scene", String.join [
      "VAR found_clues = 0\n",
      "\n",
      "=== start ===\n",
      "The room was dark, save for the single pool of light around the body.\n",
      "\n",
      "* [Examine the body]\n",
      "    -> examine_body\n",
      "* [Look around the room]\n",
      "    -> look_around\n",
      "* \x7bfound_clues >= 2\x7d [Make an accusation]\n",
      "    -> accusation\n",
      "\n",
      "=== examine_body ===\n",
      "~ found_clues++\n",
      "The victim was a middle-aged man. There was a strange mark on his neck.\n",
      "-> start\n",
      "\n",
      "=== look_around ===\n",
      "~ found_clues++\n",
      "You notice a half-empty wine glass on the table.\n",
      "-> start\n",
      "\n",
      "=== accusation ===\n",
      "\"It was poison in the wine!\" you declare.\n",
      "-> END\n"]⟩]⟩

def groups : List SnippetGroup :=
  [basicStructure, choices, variableGroup, logic, comments, lists, functions, stories]

/-- Names are compared without regard to case and to blanks around the wanted name. -/
def find? (name : String) : Option Snippet :=
  let wanted := Text.lower (String.ofList (Text.trim name.toList))
  (groups.flatMap (·.snippets)).find? fun s => Text.lower s.name == wanted

end Snippet
end InkPreview
