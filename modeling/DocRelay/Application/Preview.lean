import DocRelay.Application.Basic

namespace DocRelay.Preview

/-!
# The preview application

An editor whose contents are shown, annotated, in a second pane.

* `Preview.annotate` — the annotated text;
* `Preview.script` — the document and its watcher;
* `Preview.registry` — the applications of the command line.
-/

/-- The text as a block of code, followed by the number of its lines. -/
def annotate (source : String) : String :=
  "```python\n" ++ source ++ "\n```\n\n_" ++ toString (Text.lines source.toList).length
    ++ " lines_"

/-- The text of the editor; a value that is no text counts as none. -/
def editorText (value : Json) : String :=
  value.text?.getD ""

/-- Shows the editor's text in the pane. -/
def display (pane : String) (memory value : Json) : Script :=
  .perform (.setAttr pane "object" (.str (annotate (editorText value))) .runtime) fun reply =>
    match reply with
    | .ok _ => .finish .done memory
    | .error fault => .finish (.failed fault) memory

/-- The id in a reply. -/
def madeId : Except Fault Reply → String
  | .ok (.made id) => id
  | _ => ""

/-- Fills the document, given its title and the first text of the editor. -/
def fill (title placeholder : String) : Script :=
  .perform (.setTitle title .runtime) fun _ =>
    .perform (.addRoot "TextAreaInput"
        (Table.ofPairs [("name", .str "Source"), ("value", .str placeholder)]) .runtime)
      fun editor =>
        .perform (.addRoot "Markdown"
            (Table.ofPairs [("object", .str (annotate placeholder))]) .runtime)
          fun pane =>
            .watch (madeId editor) "value" .null (display (madeId pane)) (.finish .done .null)

/-- A binding that is a text, or a default. -/
def textBinding (ctx : ApplicationContext) (key default : String) : Except Fault String := do
  let value ← ctx.binding key .text
  return (value.bind Json.text?).getD default

/-- The texts that the manifest gives: the title, and the first text of the editor. -/
def texts (ctx : ApplicationContext) : Except Fault (String × String) := do
  let title ← textBinding ctx "title" "docsync"
  let placeholder ← textBinding ctx "placeholder" ""
  return (title, placeholder)

/-- What the application does. -/
def script (ctx : ApplicationContext) : Script :=
  match texts ctx with
  | .ok (title, placeholder) => fill title placeholder
  | .error fault => .finish (.failed fault) .null

/-- The applications of the command line. -/
def registry : Registry := Registry.empty.register "mirror" ⟨script⟩

end DocRelay.Preview
