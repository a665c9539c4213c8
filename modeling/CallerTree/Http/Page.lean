/-!
# The page

The browser page of the service: a form for a text search and for callers, and the code that fills
it in.
-/

namespace CallerTree

namespace Http

def pageLines : List String := [
  "<!doctype html>",
  "<html lang=\"en\">",
  "<head>",
  "<meta charset=\"utf-8\">",
  "<title>callscope</title>",
  "<meta name=\"viewport\" content=\"width=device-width, initial-scale=1\">",
  "<style>",
  "  body \x7b font-family: system-ui, sans-serif; margin: 0; display: grid; grid-template-columns: 1fr 1fr; height: 100vh; \x7d",
  "  header \x7b grid-column: 1 / 3; padding: .6rem 1rem; background: #20252b; color: #eee; display: flex; gap: .5rem; align-items: center; \x7d",
  "  header input \x7b font: inherit; padding: .3rem .5rem; \x7d",
  "  #directory \x7b flex: 2; \x7d #pattern \x7b flex: 1; \x7d",
  "  main, aside \x7b overflow: auto; padding: .5rem 1rem; \x7d",
  "  aside \x7b border-left: 1px solid #ddd; \x7d",
  "  .result \x7b font-family: ui-monospace, monospace; white-space: pre; cursor: pointer; padding: 1px 0; \x7d",
  "  .result:hover \x7b background: #eef3fb; \x7d",
  "  .line \x7b font-family: ui-monospace, monospace; white-space: pre; \x7d",
  "  .line .no \x7b color: #999; display: inline-block; width: 4em; text-align: right; margin-right: 1em; \x7d",
  "  .line.match \x7b background: #fff4c2; \x7d",
  "  .tree ul \x7b list-style: none; padding-left: 1.2rem; border-left: 1px dotted #bbb; \x7d",
  "  .tree .site \x7b color: #777; font-size: .85em; margin-left: .5em; cursor: pointer; \x7d",
  "  .tree .flag \x7b color: #b35; font-size: .8em; margin-left: .4em; \x7d",
  "  .muted \x7b color: #888; \x7d",
  "  .error \x7b color: #b00; \x7d",
  "</style>",
  "</head>",
  "<body>",
  "<header>",
  "  <strong>callscope</strong>",
  "  <input id=\"directory\" placeholder=\"/absolute/path/to/source\">",
  "  <input id=\"pattern\" placeholder=\"search pattern\">",
  "  <input id=\"function\" placeholder=\"function\">",
  "  <input id=\"depth\" type=\"number\" min=\"0\" value=\"10\" style=\"width:4em\">",
  "  <button id=\"hierarchy\">Callers</button>",
  "</header>",
  "<main id=\"results\"><p class=\"muted\">Type a directory and a pattern.</p></main>",
  "<aside id=\"detail\"></aside>",
  "<script>",
  "const $ = (id) => document.getElementById(id)",
  "",
  "function esc(s) \x7b",
  "  return String(s).replace(/[&<>\"]/g, (c) => (\x7b \"&\": \"&amp;\", \"<\": \"&lt;\", \">\": \"&gt;\", '\"': \"&quot;\" \x7d)[c])",
  "\x7d",
  "",
  "async function getJSON(url, params) \x7b",
  "  const res = await fetch(url + \"?\" + new URLSearchParams(params))",
  "  const body = await res.json()",
  "  if (!res.ok) throw new Error(body.error || res.statusText)",
  "  return body",
  "\x7d",
  "",
  "let timer",
  "async function search() \x7b",
  "  const path = $(\"directory\").value.trim()",
  "  const pattern = $(\"pattern\").value.trim()",
  "  if (!path || !pattern) return",
  "  try \x7b",
  "    const data = await getJSON(\"/search\", \x7b path, pattern, limit: 200 \x7d)",
  "    const rows = data.results.map((r) => \x7b",
  "      const [file, line] = r.split(\":\")",
  "      return `<div class=\"result\" data-file=\"$\x7besc(file)\x7d\" data-line=\"$\x7besc(line)\x7d\">$\x7besc(r)\x7d</div>`",
  "    \x7d)",
  "    if (data.limited) rows.push('<p class=\"muted\">More results not shown.</p>')",
  "    $(\"results\").innerHTML = rows.join(\"\") || '<p class=\"muted\">No matches.</p>'",
  "  \x7d catch (e) \x7b",
  "    $(\"results\").innerHTML = `<p class=\"error\">$\x7besc(e.message)\x7d</p>`",
  "  \x7d",
  "\x7d",
  "",
  "async function showFile(file, line) \x7b",
  "  try \x7b",
  "    const data = await getJSON(\"/file-content\", \x7b",
  "      file_path: file, line_number: line, context_lines: 15, base_path: $(\"directory\").value.trim(),",
  "    \x7d)",
  "    $(\"detail\").innerHTML = `<h3>$\x7besc(data.file_path)\x7d <span class=\"muted\">$\x7besc(data.file_type)\x7d, $\x7bdata.total_lines\x7d lines</span></h3>` +",
  "      data.context.map((l) =>",
  "        `<div class=\"line$\x7bl.is_match ? \" match\" : \"\"\x7d\"><span class=\"no\">$\x7bl.line_number\x7d</span>$\x7besc(l.content)\x7d</div>`).join(\"\")",
  "  \x7d catch (e) \x7b",
  "    $(\"detail\").innerHTML = `<p class=\"error\">$\x7besc(e.message)\x7d</p>`",
  "  \x7d",
  "\x7d",
  "",
  "function renderNode(n) \x7b",
  "  const site = n.call_site",
  "    ? `<span class=\"site\" data-file=\"$\x7besc(n.call_site.file_path)\x7d\" data-line=\"$\x7bn.call_site.line_number\x7d\">$\x7besc(n.call_site.file_path)\x7d:$\x7bn.call_site.line_number\x7d</span>`",
  "    : \"\"",
  "  const flags = (n.is_recursive ? '<span class=\"flag\">recursive</span>' : \"\") +",
  "    (n.max_depth_reached && !n.callers.length && n.depth > 0 ? '<span class=\"flag\">depth limit</span>' : \"\")",
  "  const kids = n.callers.length ? `<ul>$\x7bn.callers.map((c) => `<li>$\x7brenderNode(c)\x7d</li>`).join(\"\")\x7d</ul>` : \"\"",
  "  return `<code>$\x7besc(n.function_name)\x7d</code>$\x7bsite\x7d$\x7bflags\x7d$\x7bkids\x7d`",
  "\x7d",
  "",
  "async function hierarchy() \x7b",
  "  const name = $(\"function\").value.trim()",
  "  if (!name) return",
  "  $(\"detail\").innerHTML = '<p class=\"muted\">Resolving…</p>'",
  "  try \x7b",
  "    const data = await getJSON(\"/call-hierarchy\", \x7b",
  "      function_name: name, base_path: $(\"directory\").value.trim(), max_depth: $(\"depth\").value,",
  "    \x7d)",
  "    $(\"detail\").innerHTML = `<div class=\"tree\">$\x7brenderNode(data)\x7d</div>`",
  "  \x7d catch (e) \x7b",
  "    $(\"detail\").innerHTML = `<p class=\"error\">$\x7besc(e.message)\x7d</p>`",
  "  \x7d",
  "\x7d",
  "",
  "document.addEventListener(\"click\", (e) => \x7b",
  "  const el = e.target.closest(\"[data-file]\")",
  "  if (el) showFile(el.dataset.file, el.dataset.line)",
  "\x7d)",
  "for (const id of [\"directory\", \"pattern\"]) \x7b",
  "  $(id).addEventListener(\"input\", () => \x7b clearTimeout(timer); timer = setTimeout(search, 300) \x7d)",
  "\x7d",
  "$(\"hierarchy\").addEventListener(\"click\", hierarchy)",
  "$(\"function\").addEventListener(\"keydown\", (e) => \x7b if (e.key === \"Enter\") hierarchy() \x7d)",
  "</script>",
  "</body>",
  "</html>"]

/-- The page as it is sent. -/
def page : String := String.join (pageLines.map (· ++ "\n"))

end Http

end CallerTree
