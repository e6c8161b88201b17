import InkPreview.Mode
import InkPreview.Page.Escape
/-!
The page that shows a preview. Its fixed text is cut where a value goes: the title, the tag that
loads the story runtime, the payload and the prefix of error payloads.
-/
namespace InkPreview.Page

/-- Lines with a line feed between them. -/
def joinLines (ls : List String) : String := "\n".intercalate ls

def beforeTitle : String := joinLines [
  "<!doctype html>",
  "<html lang=\"en\">",
  "<head>",
  "    <meta charset=\"utf-8\">",
  "    <meta name=\"viewport\" content=\"width=device-width, initial-scale=1.0\">",
  "    <title>"]

def afterTitle : String := "</title>\n    "

def style : String := joinLines [
  "",
  "    <style>",
  "        body \x7b font-family: -apple-system, BlinkMacSystemFont, \"Segoe UI\", Roboto, Helvetica, Arial, sans-serif; padding: 20px; line-height: 1.6; color: #333; \x7d",
  "        @media (prefers-color-scheme: dark) \x7b",
  "            body \x7b color: #eee; background: #1e1e1e; \x7d",
  "        \x7d",
  "        p \x7b margin-bottom: 12px; \x7d",
  "        .choice \x7b",
  "            display: block;",
  "            width: fit-content;",
  "            margin-top: 10px;",
  "            padding: 6px 12px;",
  "            color: #007aff;",
  "            border: 1px solid #007aff;",
  "            border-radius: 6px;",
  "            cursor: pointer;",
  "        \x7d",
  "        .choice:hover \x7b background: rgba(0, 122, 255, 0.1); \x7d",
  "        .end \x7b color: #777; font-style: italic; \x7d",
  "        .compiler-error \x7b background: #fee; color: #c00; padding: 15px; border-left: 4px solid #c00; border-radius: 4px; \x7d",
  "        .compiler-error pre \x7b margin: 8px 0 0; white-space: pre-wrap; font-family: Menlo, monospace; \x7d",
  "        #debug \x7b display: none; margin-top: 40px; padding: 10px; background: #fff3cd; color: #856404; border: 1px solid #ffeeba; border-radius: 4px; font: 0.85em monospace; \x7d",
  "    </style>",
  "</head>",
  "<body>",
  "    <div id=\"story\"></div>",
  "    <div id=\"debug\"><strong>Debug Console:</strong><div id=\"debug-log\"></div></div>",
  "",
  ""]

/-- Opens the element that holds a story as data. -/
def storyOpen : String := "\n    <script type=\"application/json\" id=\"story-json\">"

def storyClose : String := "</script>\n"

def scriptOpen : String := joinLines [
  "",
  "    <script>",
  "        var storyContent = "]

/-- The expression that reads the story back from its element. -/
def storyLookup : String :=
  "document.getElementById('story-json').textContent"

def beforePrefix : String := joinLines [
  ";",
  "        var ERROR_PREFIX = \""]

def afterPrefix : String := joinLines [
  "\";",
  "        var container = document.getElementById('story');",
  "",
  "        function log(msg) \x7b",
  "            document.getElementById('debug').style.display = 'block';",
  "            var line = document.createElement('div');",
  "            line.textContent = msg;",
  "            document.getElementById('debug-log').appendChild(line);",
  "            console.log(msg);",
  "        \x7d",
  "",
  "        window.onerror = function(msg, url, line) \x7b",
  "            log(\"JS Error: \" + msg + \" (Line \" + line + \")\");",
  "            return false;",
  "        \x7d;",
  "",
  "        function addParagraph(text, className) \x7b",
  "            var p = document.createElement('p');",
  "            p.textContent = text;",
  "            if (className) \x7b p.className = className; \x7d",
  "            container.appendChild(p);",
  "        \x7d",
  "",
  "        function runStory(json) \x7b",
  "            if (typeof inkjs === 'undefined') \x7b",
  "                log(\"inkjs runtime is missing: add ink.min.js or check the network connection.\");",
  "                return;",
  "            \x7d",
  "            var story = new inkjs.Story(json);",
  "",
  "            function continueStory() \x7b",
  "                while (story.canContinue) \x7b",
  "                    addParagraph(story.Continue());",
  "                \x7d",
  "                if (story.currentChoices.length === 0) \x7b",
  "                    addParagraph(\"--- End of Story ---\", \"end\");",
  "                    return;",
  "                \x7d",
  "                story.currentChoices.forEach(function(choice) \x7b",
  "                    var el = document.createElement('div');",
  "                    el.className = 'choice';",
  "                    el.textContent = choice.text;",
  "                    el.onclick = function() \x7b",
  "                        story.ChooseChoiceIndex(choice.index);",
  "                        document.querySelectorAll('.choice').forEach(function(c) \x7b c.remove(); \x7d);",
  "                        continueStory();",
  "                    \x7d;",
  "                    container.appendChild(el);",
  "                \x7d);",
  "            \x7d",
  "",
  "            continueStory();",
  "        \x7d",
  "",
  "        function showError(message) \x7b",
  "            var panel = document.createElement('div');",
  "            panel.className = 'compiler-error';",
  "            var heading = document.createElement('strong');",
  "            heading.textContent = \"Compilation Failed:\";",
  "            var pre = document.createElement('pre');",
  "            pre.textContent = message;",
  "            panel.appendChild(heading);",
  "            panel.appendChild(pre);",
  "            container.appendChild(panel);",
  "        \x7d",
  "",
  "        try \x7b",
  "            var trimmed = storyContent.trim();",
  "            if (trimmed.length === 0) \x7b",
  "                container.innerHTML = \"<p><em>Start writing...</em></p>\";",
  "            \x7d else if (trimmed.charAt(0) === '\x7b') \x7b",
  "                try \x7b",
  "                    runStory(JSON.parse(storyContent));",
  "                \x7d catch (jsonErr) \x7b",
  "                    log(\"JSON Parse/Run Error: \" + jsonErr.message);",
  "                \x7d",
  "            \x7d else if (storyContent.indexOf(ERROR_PREFIX) === 0) \x7b",
  "                showError(storyContent.substring(ERROR_PREFIX.length));",
  "            \x7d else \x7b",
  "                container.innerHTML = \"<p><strong>Raw Ink Code Detected</strong></p><p>Compiling...</p>\";",
  "            \x7d",
  "        \x7d catch (e) \x7b",
  "            log(\"Setup Error: \" + e.message);",
  "        \x7d",
  "    </script>",
  "</body>",
  "</html>",
  ""]

/-- What the page shows: a story as data, or a text as a string of the script. -/
inductive Payload
  | story (json : List Char)
  | text (content : List Char)

/-- Stories are data and only kept from closing their element; everything else is a string of the
script. -/
def payload (m : Mode) : Payload :=
  match m.kind with
  | .compiled | .passthrough => .story (escapeClosing m.text.toList)
  | _ => .text (escapeScript m.payload.toList)

def Payload.element : Payload → String
  | story json => storyOpen ++ String.ofList json ++ storyClose
  | text _ => ""

def Payload.expression : Payload → String
  | story _ => storyLookup
  | text content => "\"" ++ String.ofList content ++ "\""

/-- An empty title stands for the usual one. -/
def titleOr (title : Option String) : String :=
  match title with
  | none | some "" => Settings.previewTitle
  | some t => t

def build (tag : String) (mode : Mode) (title : Option String) : String :=
  let p := payload mode
  beforeTitle ++ String.ofList (escapeMarkup (titleOr title).toList) ++ afterTitle ++ tag ++ style ++
    p.element ++ scriptOpen ++ p.expression ++ beforePrefix ++ Settings.errorPrefix ++ afterPrefix

end InkPreview.Page
