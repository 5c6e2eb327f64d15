import Bundler.Bundle.Chunk
/-!
# The scripts of chunks

The file of a chunk is a script: each module becomes a function in a registry that all chunks share,
under the module's path; a chunk with an entrypoint brings the code that requires modules, loads
other chunks and starts the entrypoint.
-/

namespace Bundler

namespace Script

/-- Begins a chunk. -/
def opening : String := "\"use strict\";\n(function() \x7b\n"

/-- Ends a chunk. -/
def closing : String := "\x7d)();\n"

/-- Gives access to the registry of modules. -/
def registry : String :=
  "var modules = (globalThis.__modules__ = globalThis.__modules__ || \x7b\x7d);\n"

/-- Requires modules, loads chunks and starts an entrypoint. -/
def runtime : String :=
  "var cache = \x7b\x7d;\n" ++
  "\n" ++
  "function require(name) \x7b\n" ++
  "  if (cache[name]) \x7b\n" ++
  "    return cache[name].exports;\n" ++
  "  \x7d\n" ++
  "  if (!modules[name]) \x7b\n" ++
  "    throw new Error(\"Cannot find module '\" + name + \"'\");\n" ++
  "  \x7d\n" ++
  "  var module = \x7b\n" ++
  "    name: name,\n" ++
  "    exports: \x7b\x7d\n" ++
  "  \x7d;\n" ++
  "  cache[name] = module;\n" ++
  "  modules[name](module, module.exports, require);\n" ++
  "  return module.exports;\n" ++
  "\x7d\n" ++
  "\n" ++
  "function chunk(path, cb) \x7b\n" ++
  "  var script = document.createElement(\"script\");\n" ++
  "  script.src = path;\n" ++
  "  script.type = \"text/javascript\";\n" ++
  "  script.onload = function() \x7b cb(); \x7d;\n" ++
  "  document.getElementsByTagName(\"head\")[0].appendChild(script);\n" ++
  "\x7d\n" ++
  "\n" ++
  "function start(chunks, main) \x7b\n" ++
  "  var loaded = 0;\n" ++
  "  if (!chunks || chunks.length === 0) \x7b\n" ++
  "    require(main);\n" ++
  "    return;\n" ++
  "  \x7d\n" ++
  "  chunks.forEach(function(path) \x7b\n" ++
  "    chunk(path, function() \x7b\n" ++
  "      loaded++;\n" ++
  "      if (loaded === chunks.length) \x7b\n" ++
  "        require(main);\n" ++
  "      \x7d\n" ++
  "    \x7d);\n" ++
  "  \x7d);\n" ++
  "\x7d\n"

/-- What comes before the modules. -/
def preamble (c : Chunk) : Bytes :=
  Utf8.encode (opening ++ registry ++ if c.entrypoint.isSome then runtime else "")

/-- A module as a function in the registry. Its source ends in a line feed. -/
def wrap (module : Path) (source : Bytes) : Bytes :=
  let name := Json.quote module.text
  Utf8.encode ("modules[" ++ name ++ "] = function(module, exports, require) \x7b\n") ++ source ++
    (if source.getLast? = some 0x0A then [] else [0x0A]) ++ Utf8.encode "\x7d;\n"

/-- The call that starts the entrypoint. -/
def startLine (c : Chunk) : String :=
  match c.entrypoint with
  | none => ""
  | some e =>
    let loads := Json.inlineArray (c.loads.map Json.quote)
    "start(" ++ loads ++ ", " ++ Json.quote e.module.text ++ ");\n"

/-- What comes after the modules. -/
def postamble (c : Chunk) : Bytes := Utf8.encode (startLine c ++ closing)

/-- The modules in order, up to the first that cannot be read, and why that is. -/
def modules (t : FileTree) (root : Path) : List Path → Bytes × Option LinkError
  | [] => ([], none)
  | module :: rest =>
    match t.read (root.join module) with
    | .error e => ([], some (.inaccessible module e))
    | .ok source =>
      let (text, failure) := modules t root rest
      (wrap module source ++ text, failure)

end Script

end Bundler
