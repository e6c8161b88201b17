import InkPreview.Page.Build
/-!
The editor's page: the list of documents beside a text field and the preview frame.
-/
namespace InkPreview.Page

def editorOpen : String := joinLines [
  "<!doctype html>",
  "<html lang=\"en\">",
  "<head>",
  "    <meta charset=\"utf-8\">",
  "    <title>inkies</title>",
  "    <style>",
  "        html, body \x7b margin: 0; height: 100%; font-family: -apple-system, BlinkMacSystemFont, \"Segoe UI\", Roboto, sans-serif; \x7d",
  "        #app \x7b display: flex; height: 100%; \x7d",
  "        #sidebar \x7b width: 200px; border-right: 1px solid #ddd; padding: 8px; overflow-y: auto; \x7d",
  "        #sidebar li \x7b cursor: pointer; padding: 4px 0; list-style: none; \x7d",
  "        #editor \x7b flex: 1; border: none; padding: 8px; font: 14px Menlo, monospace; resize: none; \x7d",
  "        #preview \x7b flex: 1; border: none; border-left: 1px solid #ddd; background: #fff; \x7d",
  "        #status \x7b position: fixed; bottom: 4px; right: 8px; color: #888; font-size: 12px; \x7d",
  "    </style>",
  "</head>",
  "<body>",
  "<div id=\"app\">",
  "    <div id=\"sidebar\">",
  "        <button id=\"new-doc\">+ New</button>",
  "        <ul id=\"doc-list\">",
  "        "]

def editorClose : String := joinLines [
  "",
  "        </ul>",
  "    </div>",
  "    <textarea id=\"editor\" spellcheck=\"false\" disabled></textarea>",
  "    <iframe id=\"preview\" sandbox=\"allow-scripts\"></iframe>",
  "</div>",
  "<div id=\"status\"></div>",
  "",
  "<script>",
  "    var ws = new WebSocket((location.protocol === 'https:' ? 'wss://' : 'ws://') + location.host + '/ws');",
  "    var editor = document.getElementById('editor');",
  "    var preview = document.getElementById('preview');",
  "    var status = document.getElementById('status');",
  "    var currentDoc = null;",
  "    var latestGeneration = 0;",
  "",
  "    ws.onmessage = function(event) \x7b",
  "        var msg = JSON.parse(event.data);",
  "        if (msg.type === 'preview' && msg.document_id === currentDoc) \x7b",
  "            status.textContent = msg.mode;",
  "            if (msg.generation < latestGeneration || msg.mode === 'pending') \x7b return; \x7d",
  "            latestGeneration = msg.generation;",
  "            preview.srcdoc = msg.html;",
  "        \x7d else if (msg.type === 'error') \x7b",
  "            status.textContent = msg.message;",
  "        \x7d",
  "    \x7d;",
  "",
  "    function openDoc(id) \x7b",
  "        if (currentDoc) \x7b ws.send(JSON.stringify(\x7baction: 'close', document_id: currentDoc\x7d)); \x7d",
  "        currentDoc = id;",
  "        latestGeneration = 0;",
  "        fetch('/api/documents/' + id + '/export/source')",
  "            .then(function(r) \x7b return r.text(); \x7d)",
  "            .then(function(text) \x7b",
  "                editor.value = text;",
  "                editor.disabled = false;",
  "                ws.send(JSON.stringify(\x7baction: 'open', document_id: id\x7d));",
  "            \x7d);",
  "    \x7d",
  "",
  "    editor.addEventListener('input', function() \x7b",
  "        ws.send(JSON.stringify(\x7baction: 'edit', document_id: currentDoc, text: editor.value\x7d));",
  "    \x7d);",
  "",
  "    document.getElementById('doc-list').addEventListener('click', function(e) \x7b",
  "        if (e.target.dataset.id) \x7b openDoc(e.target.dataset.id); \x7d",
  "    \x7d);",
  "",
  "    document.getElementById('new-doc').addEventListener('click', function() \x7b",
  "        fetch('/api/documents', \x7b",
  "            method: 'POST',",
  "            headers: \x7b'Content-Type': 'application/json'\x7d,",
  "            body: JSON.stringify(\x7btitle: 'Untitled', content: ''\x7d)",
  "        \x7d).then(function(r) \x7b return r.json(); \x7d).then(function(doc) \x7b",
  "            var li = document.createElement('li');",
  "            li.dataset.id = doc.document_id;",
  "            li.textContent = doc.title;",
  "            document.getElementById('doc-list').prepend(li);",
  "            openDoc(doc.document_id);",
  "        \x7d);",
  "    \x7d);",
  "</script>",
  "</body>",
  "</html>"]

/-- One entry of the list, from the text that names the document and its title. -/
def editorEntry (id title : String) : String :=
  "\n            <li data-id=\"" ++ String.ofList (escapeMarkup id.toList) ++ "\">" ++
    String.ofList (escapeMarkup title.toList) ++ "</li>\n        "

def editor (documents : List (String × String)) : String :=
  editorOpen ++ String.join (documents.map fun d => editorEntry d.1 d.2) ++ editorClose

end InkPreview.Page
