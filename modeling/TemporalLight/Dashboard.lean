import TemporalLight.Library.Markup
import Mathlib.Data.List.Forall2

/-!
# The JSON tree of the dashboard (api/dashboard.html)

The events of a workflow are shown as collapsible JSON.  Their payloads come from signals and from
activities, so any string may stand in them.  A collapsed subtree shows the dots that stand beside
it, which are hidden otherwise.

`numberText` is what `String(value)` and `JSON.stringify(value)` both make of a finite number; the
members of an object are listed in the order of `Object.keys`.

* `stringify`           `JSON.stringify(value, null, 2)`
* `renderJsonNode`      the HTML of a value
* `renders_node`        read as HTML, it has the text of `stringify`, at any indentation
* `json_tree_faithful`  so at the root
-/

namespace TemporalLight
open Markup

/-- a JSON value of JavaScript; strings are any lists of code units -/
inductive JsValue (ν : Type) where
  | null
  | boolean (b : Bool)
  | number (x : ν)
  | string (s : Units)
  | array (items : List (JsValue ν))
  | object (members : List (Units × JsValue ν))

/-- `String(value)` of a boolean -/
def booleanText (b : Bool) : Units := if b then units "true" else units "false"

/-! ## JSON.stringify -/

def hexDigit (n : UInt16) : UInt16 := if n < 10 then 48 + n else 87 + n

/-- `UnicodeEscape` -/
def unicodeEscape (u : UInt16) : Units :=
  units "\\u" ++ [hexDigit (u / 4096), hexDigit (u / 256 % 16), hexDigit (u / 16 % 16),
    hexDigit (u % 16)]

def isLeadSurrogate (u : UInt16) : Bool := decide (0xD800 ≤ u) && decide (u ≤ 0xDBFF)
def isTrailSurrogate (u : UInt16) : Bool := decide (0xDC00 ≤ u) && decide (u ≤ 0xDFFF)

/-- a code unit that is no half of a surrogate pair -/
def quoteUnit (u : UInt16) : Units :=
  if u = 8 then units "\\b"
  else if u = 9 then units "\\t"
  else if u = 10 then units "\\n"
  else if u = 12 then units "\\f"
  else if u = 13 then units "\\r"
  else if u = 34 then units "\\\""
  else if u = 92 then units "\\\\"
  else if u < 32 || isLeadSurrogate u || isTrailSurrogate u then unicodeEscape u
  else [u]

def quoteUnits : Units → Units
  | [] => []
  | [u] => quoteUnit u
  | u :: v :: rest =>
    if isLeadSurrogate u && isTrailSurrogate v then u :: v :: quoteUnits rest
    else quoteUnit u ++ quoteUnits (v :: rest)

/-- `QuoteJSONString` -/
def quoteJsonString (s : Units) : Units := units "\"" ++ quoteUnits s ++ units "\""

section
variable {ν : Type} (numberText : ν → Units)

/-- `SerializeJSONArray` and `SerializeJSONObject` put their parts between brackets -/
def bracket (opening closing : Units) (parts : List Units) (indent : Units) : Units :=
  if parts.isEmpty then opening ++ closing
  else
    let inner := indent ++ units "  "
    opening ++ units "\n" ++ inner ++ (units ",\n" ++ inner).intercalate parts ++ units "\n"
      ++ indent ++ closing

mutual
/-- `JSON.stringify(value, null, 2)` of a value that stands at an indentation -/
def stringify : JsValue ν → Units → Units
  | .null, _ => units "null"
  | .boolean b, _ => booleanText b
  | .number x, _ => numberText x
  | .string s, _ => quoteJsonString s
  | .array items, indent =>
    bracket (units "[") (units "]") (stringifyItems items (indent ++ units "  ")) indent
  | .object members, indent =>
    bracket (units "\x7b") (units "\x7d") (stringifyMembers members (indent ++ units "  ")) indent

def stringifyItems : List (JsValue ν) → Units → List Units
  | [], _ => []
  | value :: items, indent => stringify value indent :: stringifyItems items indent

def stringifyMembers : List (Units × JsValue ν) → Units → List Units
  | [], _ => []
  | (key, value) :: members, indent =>
    (quoteJsonString key ++ units ": " ++ stringify value indent)
      :: stringifyMembers members indent
end

/-! ## renderJsonNode -/

/-- `str.replace(/u/g, text)` -/
def replaceUnit (u : UInt16) (text s : Units) : Units := s.flatMap fun v => if v = u then text else [v]

/-- `esc` -/
def esc (s : Units) : Units :=
  replaceUnit 34 (units "&quot;") (replaceUnit 62 (units "&gt;")
    (replaceUnit 60 (units "&lt;") (replaceUnit 38 (units "&amp;") s)))

/-- `jsonInner` -/
def jsonInner (s : Units) : Units := esc ((quoteJsonString s).drop 1).dropLast

/-- the rows of an array or object, joined; each but the last one ends with a comma -/
def rows (nodes : List Units) (inner : Units) : Units :=
  (units "\n").intercalate (nodes.mapIdx fun i node =>
    inner ++ node ++ if i < nodes.length - 1 then units "," else [])

/-- `renderJsonObject`, when `nodes` are its members without indentation and comma -/
def renderJsonObject (nodes : List Units) (indent : Units) : Units :=
  if nodes.isEmpty then units "<span class=\"j-prim\">\x7b\x7d</span>"
  else
    let inner := indent ++ units "  "
    units "<span class=\"j-obj\"><span class=\"j-brace\">\x7b</span>"
      ++ units "<span class=\"j-dots\">…</span><span class=\"j-items\">\n"
      ++ rows nodes inner ++ units "\n" ++ indent
      ++ units "</span><span class=\"j-brace\">\x7d</span></span>"

/-- `renderJsonArray`, when `nodes` are its items without indentation and comma -/
def renderJsonArray (nodes : List Units) (indent : Units) : Units :=
  if nodes.isEmpty then units "<span class=\"j-prim\">[]</span>"
  else
    let inner := indent ++ units "  "
    units "<span class=\"j-arr\"><span class=\"j-brace\">[</span>"
      ++ units "<span class=\"j-dots\">…</span><span class=\"j-items\">\n"
      ++ rows nodes inner ++ units "\n" ++ indent
      ++ units "</span><span class=\"j-brace\">]</span></span>"

mutual
/-- `renderJsonNode` -/
def renderJsonNode : JsValue ν → Units → Units
  | .null, _ => units "<span class=\"j-null\">null</span>"
  | .array items, indent => renderJsonArray (renderItems items (indent ++ units "  ")) indent
  | .object members, indent =>
    renderJsonObject (renderMembers members (indent ++ units "  ")) indent
  | .string s, _ => units "<span class=\"j-str\">\"<span class=\"j-str-full\">" ++ jsonInner s
      ++ units "</span><span class=\"j-dots\">…</span>\"</span>"
  | .number x, _ => units "<span class=\"j-num\">" ++ esc (numberText x) ++ units "</span>"
  | .boolean b, _ => units "<span class=\"j-bool\">" ++ booleanText b ++ units "</span>"

def renderItems : List (JsValue ν) → Units → List Units
  | [], _ => []
  | value :: items, inner => renderJsonNode value inner :: renderItems items inner

def renderMembers : List (Units × JsValue ν) → Units → List Units
  | [], _ => []
  | (key, value) :: members, inner =>
    (units "<span class=\"j-key\">\"" ++ jsonInner key ++ units "\"</span>: "
      ++ renderJsonNode value inner) :: renderMembers members inner
end

end

/-! ## what is rendered -/

def templates : List Units :=
  ["j-null", "j-str", "j-str-full", "j-dots", "j-num", "j-bool", "j-prim", "j-key", "j-obj", "j-arr",
    "j-brace", "j-items"].map units

def isDots (cls : Units) : Bool := cls == units "j-dots"

/-- the string is read as spans of the templates, and shows this text beside the dots -/
def Renders (s text : Units) : Prop :=
  ∃ nodes, Reads s nodes ∧ allSpansIn templates nodes = true ∧ contentAll isDots nodes = text

variable {s t a b : Units}

theorem renders_nil : Renders [] [] := ⟨[], reads_nil, rfl, rfl⟩

theorem Renders.append (hs : Renders s a) (ht : Renders t b) : Renders (s ++ t) (a ++ b) := by
  obtain ⟨nodes, hreads, hspans, rfl⟩ := hs
  obtain ⟨nodes', hreads', hspans', rfl⟩ := ht
  refine ⟨nodes ++ nodes', hreads.append hreads', ?_, contentAll_append⟩
  rw [allSpansIn_append, hspans, hspans']
  rfl

theorem renders_plain (h : s.all isPlain = true) : Renders s s := by
  refine ⟨s.map .unit, reads_units h, ?_, ?_⟩
  · induction s with
    | nil => rfl
    | cons u s ih =>
      rw [List.all_cons, Bool.and_eq_true] at h
      exact ih h.2
  · induction s with
    | nil => rfl
    | cons u s ih =>
      rw [List.all_cons, Bool.and_eq_true] at h
      exact congrArg (u :: ·) (ih h.2)

theorem renders_ref (name : Units) {u : UInt16} (hname : name.all (· != 59) = true)
    (href : ref? name = some u) : Renders (38 :: (name ++ [59])) [u] :=
  ⟨[.unit u], reads_ref name hname href, rfl, rfl⟩

theorem Renders.span (cls : Units) (hcls : templates.contains cls = true)
    (hname : cls.all isNameUnit = true) (hdots : isDots cls = false) (h : Renders s t) :
    Renders (startTag cls ++ s ++ endTag) t := by
  obtain ⟨nodes, hreads, hspans, rfl⟩ := h
  refine ⟨[.span cls nodes], hreads.span cls hname, ?_, ?_⟩
  · rw [allSpansIn_singleton, Node.spansIn, hcls, hspans]
    rfl
  · rw [contentAll_singleton, Node.content, hdots]
    rfl

theorem renders_dots : Renders (units "<span class=\"j-dots\">…</span>") [] := by
  have hdots : Reads (units "…") [.unit 8230] := reads_unit (by decide)
  exact ⟨[.span (units "j-dots") [.unit 8230]], hdots.span (units "j-dots") (by decide), by decide,
    rfl⟩

/-! ## escaping -/

theorem esc_cons (u : UInt16) (s : Units) : esc (u :: s) = esc [u] ++ esc s := by
  simp only [esc, replaceUnit, List.flatMap_cons, List.flatMap_append, List.flatMap_nil,
    List.append_nil]

/-- **Escaped text is read as the text.** -/
theorem renders_esc (s : Units) : Renders (esc s) s := by
  induction s with
  | nil => exact renders_nil
  | cons u s ih =>
    rw [esc_cons]
    refine Renders.append (a := [u]) ?_ ih
    by_cases hamp : u = 38
    · subst hamp
      exact renders_ref (units "amp") rfl rfl
    by_cases hlt : u = 60
    · subst hlt
      exact renders_ref (units "lt") rfl rfl
    by_cases hgt : u = 62
    · subst hgt
      exact renders_ref (units "gt") rfl rfl
    by_cases hquot : u = 34
    · subst hquot
      exact renders_ref (units "quot") rfl rfl
    have hesc : esc [u] = [u] := by
      simp [esc, replaceUnit, hamp, hlt, hgt, hquot]
    rw [hesc]
    exact renders_plain (by simp [isPlain, hamp, hlt, hgt])

/-! ## rows -/

theorem rows_singleton (a inner : Units) : rows [a] inner = inner ++ a := by
  show (units "\n").intercalate [inner ++ a ++ []] = inner ++ a
  rw [List.intercalate_singleton, List.append_nil]

theorem rows_cons_cons (a b : Units) (l : List Units) (inner : Units) :
    rows (a :: b :: l) inner = inner ++ a ++ units ",\n" ++ rows (b :: l) inner := by
  have hrest (i : Nat) : (i + 1 < (a :: b :: l).length - 1) = (i < (b :: l).length - 1) := by
    simp only [List.length_cons]
    exact propext (by omega)
  have hcomma : units "," ++ units "\n" = units ",\n" := rfl
  rw [rows, rows, List.mapIdx_cons]
  simp only [hrest]
  rw [List.mapIdx_cons, List.intercalate_cons_cons, if_pos (by simp), List.append_assoc _ _ (units "\n"),
    hcomma]

theorem renders_rows {nodes texts : List Units} {inner : Units} (hinner : inner.all isPlain = true)
    (h : List.Forall₂ Renders nodes texts) (hne : nodes ≠ []) :
    Renders (rows nodes inner) (inner ++ (units ",\n" ++ inner).intercalate texts) := by
  induction h with
  | nil => exact absurd rfl hne
  | @cons node text nodes texts hnode hnodes ih =>
    cases hnodes with
    | nil =>
      rw [rows_singleton, List.intercalate_singleton]
      exact (renders_plain hinner).append hnode
    | cons hnode' hnodes =>
      have hcomma : Renders (units ",\n") (units ",\n") := renders_plain (by decide)
      have hrows := (((renders_plain hinner).append hnode).append hcomma).append (ih nofun)
      rw [rows_cons_cons, List.intercalate_cons_cons]
      simpa only [List.append_assoc] using hrows

/-! ## nodes -/

theorem isPlain_inner {indent : Units} (h : indent.all isPlain = true) :
    (indent ++ units "  ").all isPlain = true := by
  rw [List.all_append, h]
  decide

/-- the template of an array or an object that is not empty -/
theorem renders_bracket (cls opening closing : Units) (hcls : templates.contains cls = true)
    (hname : cls.all isNameUnit = true) (hdots : isDots cls = false)
    (hopening : opening.all isPlain = true) (hclosing : closing.all isPlain = true)
    {nodes texts : List Units} {indent : Units} (hindent : indent.all isPlain = true)
    (h : List.Forall₂ Renders nodes texts) (hne : nodes ≠ []) :
    let brace := startTag (units "j-brace")
    Renders (startTag cls ++ (brace ++ opening ++ endTag ++ units "<span class=\"j-dots\">…</span>"
        ++ (startTag (units "j-items")
          ++ (units "\n" ++ rows nodes (indent ++ units "  ") ++ units "\n" ++ indent) ++ endTag)
        ++ (brace ++ closing ++ endTag)) ++ endTag)
      (bracket opening closing texts indent) := by
  intro brace
  have hline : Renders (units "\n") (units "\n") := renders_plain (by decide)
  have hrows : Renders (rows nodes (indent ++ units "  ")) _ := renders_rows (isPlain_inner hindent) h hne
  have hitems := Renders.span (units "j-items") (by decide) (by decide) (by decide)
    (((hline.append hrows).append hline).append (renders_plain hindent))
  have hbrace (text : Units) (h : text.all isPlain = true) : Renders (brace ++ text ++ endTag) text :=
    Renders.span (units "j-brace") (by decide) (by decide) (by decide) (renders_plain h)
  have hall := Renders.span cls hcls hname hdots
    ((((hbrace opening hopening).append renders_dots).append hitems).append (hbrace closing hclosing))
  have htexts : texts.isEmpty = false := by
    cases h with
    | nil => exact absurd rfl hne
    | cons _ _ => rfl
  rw [bracket, if_neg (by rw [htexts]; decide)]
  simpa only [List.append_assoc, List.append_nil] using hall

theorem renders_array {nodes texts : List Units} {indent : Units} (hindent : indent.all isPlain = true)
    (h : List.Forall₂ Renders nodes texts) :
    Renders (renderJsonArray nodes indent) (bracket (units "[") (units "]") texts indent) := by
  cases h with
  | nil =>
    have hempty : Renders (units "[]") (units "[]") := renders_plain (by decide)
    exact hempty.span (units "j-prim") (by decide) (by decide) (by decide)
  | @cons node text nodes texts hnode hnodes =>
    have hall := renders_bracket (units "j-arr") (units "[") (units "]") (by decide) (by decide)
      (by decide) (by decide) (by decide) hindent (.cons hnode hnodes) nofun
    have hopening : units "<span class=\"j-arr\"><span class=\"j-brace\">[</span>"
          ++ units "<span class=\"j-dots\">…</span><span class=\"j-items\">\n"
        = startTag (units "j-arr") ++ (startTag (units "j-brace") ++ units "[" ++ endTag
          ++ units "<span class=\"j-dots\">…</span>" ++ startTag (units "j-items") ++ units "\n") := rfl
    have hclosing : units "</span><span class=\"j-brace\">]</span></span>"
        = endTag ++ (startTag (units "j-brace") ++ units "]" ++ endTag) ++ endTag := rfl
    rw [renderJsonArray, List.isEmpty_cons, if_neg Bool.false_ne_true]
    dsimp only
    rw [hopening, hclosing]
    simpa only [List.append_assoc] using hall

theorem renders_object {nodes texts : List Units} {indent : Units} (hindent : indent.all isPlain = true)
    (h : List.Forall₂ Renders nodes texts) :
    Renders (renderJsonObject nodes indent) (bracket (units "\x7b") (units "\x7d") texts indent) := by
  cases h with
  | nil =>
    have hempty : Renders (units "\x7b\x7d") (units "\x7b\x7d") := renders_plain (by decide)
    exact hempty.span (units "j-prim") (by decide) (by decide) (by decide)
  | @cons node text nodes texts hnode hnodes =>
    have hall := renders_bracket (units "j-obj") (units "\x7b") (units "\x7d") (by decide) (by decide)
      (by decide) (by decide) (by decide) hindent (.cons hnode hnodes) nofun
    have hopening : units "<span class=\"j-obj\"><span class=\"j-brace\">\x7b</span>"
          ++ units "<span class=\"j-dots\">…</span><span class=\"j-items\">\n"
        = startTag (units "j-obj") ++ (startTag (units "j-brace") ++ units "\x7b" ++ endTag
          ++ units "<span class=\"j-dots\">…</span>" ++ startTag (units "j-items") ++ units "\n") := rfl
    have hclosing : units "</span><span class=\"j-brace\">\x7d</span></span>"
        = endTag ++ (startTag (units "j-brace") ++ units "\x7d" ++ endTag) ++ endTag := rfl
    rw [renderJsonObject, List.isEmpty_cons, if_neg Bool.false_ne_true]
    dsimp only
    rw [hopening, hclosing]
    simpa only [List.append_assoc] using hall

theorem renders_jsonInner (s : Units) : Renders (jsonInner s) (quoteUnits s) := by
  have hinner : ((quoteJsonString s).drop 1).dropLast = quoteUnits s := List.dropLast_concat
  rw [jsonInner, hinner]
  exact renders_esc _

theorem renders_string (s : Units) :
    Renders (units "<span class=\"j-str\">\"<span class=\"j-str-full\">" ++ jsonInner s
      ++ units "</span><span class=\"j-dots\">…</span>\"</span>") (quoteJsonString s) := by
  have hquote : Renders (units "\"") (units "\"") := renders_plain (by decide)
  have hfull := (renders_jsonInner s).span (units "j-str-full") (by decide) (by decide) (by decide)
  have hall := (((hquote.append hfull).append renders_dots).append hquote).span (units "j-str")
    (by decide) (by decide) (by decide)
  have hopening : units "<span class=\"j-str\">\"<span class=\"j-str-full\">"
      = startTag (units "j-str") ++ units "\"" ++ startTag (units "j-str-full") := rfl
  have hclosing : units "</span><span class=\"j-dots\">…</span>\"</span>"
      = endTag ++ units "<span class=\"j-dots\">…</span>" ++ units "\"" ++ endTag := rfl
  rw [hopening, hclosing, quoteJsonString]
  simpa only [List.append_assoc, List.nil_append] using hall

theorem renders_member {key node text : Units} (h : Renders node text) :
    Renders (units "<span class=\"j-key\">\"" ++ jsonInner key ++ units "\"</span>: " ++ node)
      (quoteJsonString key ++ units ": " ++ text) := by
  have hquote : Renders (units "\"") (units "\"") := renders_plain (by decide)
  have hcolon : Renders (units ": ") (units ": ") := renders_plain (by decide)
  have hkey := ((hquote.append (renders_jsonInner key)).append hquote).span (units "j-key")
    (by decide) (by decide) (by decide)
  have hall := (hkey.append hcolon).append h
  have hopening : units "<span class=\"j-key\">\"" = startTag (units "j-key") ++ units "\"" := rfl
  have hclosing : units "\"</span>: " = units "\"" ++ endTag ++ units ": " := rfl
  rw [hopening, hclosing, quoteJsonString]
  simpa only [List.append_assoc] using hall

section
variable {ν : Type} {numberText : ν → Units}

mutual
/-- **A rendered value shows the text of `JSON.stringify`**, wherever it stands. -/
theorem renders_node {indent : Units} (hindent : indent.all isPlain = true) :
    ∀ v : JsValue ν, Renders (renderJsonNode numberText v indent) (stringify numberText v indent)
  | .null =>
    have hnull : Renders (units "null") (units "null") := renders_plain (by decide)
    hnull.span (units "j-null") (by decide) (by decide) (by decide)
  | .boolean b =>
    have hboolean : Renders (booleanText b) (booleanText b) :=
      renders_plain (by cases b <;> decide)
    hboolean.span (units "j-bool") (by decide) (by decide) (by decide)
  | .number x => (renders_esc (numberText x)).span (units "j-num") (by decide) (by decide) (by decide)
  | .string s => renders_string s
  | .array items => renders_array hindent (renders_items (isPlain_inner hindent) items)
  | .object members => renders_object hindent (renders_members (isPlain_inner hindent) members)

theorem renders_items {inner : Units} (hinner : inner.all isPlain = true) :
    ∀ items : List (JsValue ν),
      List.Forall₂ Renders (renderItems numberText items inner) (stringifyItems numberText items inner)
  | [] => .nil
  | v :: items => .cons (renders_node hinner v) (renders_items hinner items)

theorem renders_members {inner : Units} (hinner : inner.all isPlain = true) :
    ∀ members : List (Units × JsValue ν),
      List.Forall₂ Renders (renderMembers numberText members inner)
        (stringifyMembers numberText members inner)
  | [] => .nil
  | (_, v) :: members => .cons (renders_member (renders_node hinner v)) (renders_members hinner members)
end

/-- **The JSON tree is faithful and free of injected markup**: its HTML is read as properly nested
spans of the templates, and the text beside the dots is `JSON.stringify(value, null, 2)`. -/
theorem json_tree_faithful (numberText : ν → Units) (v : JsValue ν) :
    ∃ nodes, parse (renderJsonNode numberText v []) = some nodes
      ∧ allSpansIn templates nodes = true
      ∧ contentAll isDots nodes = stringify numberText v [] := by
  have hrenders : Renders (renderJsonNode numberText v []) (stringify numberText v []) :=
    renders_node rfl v
  obtain ⟨nodes, hreads, hspans, hcontent⟩ := hrenders
  exact ⟨nodes, hreads.parse, hspans, hcontent⟩

end

/-- `{"<b>": [null, "\"&"]}` -/
example : stringify (fun _ : Empty => []) (.object [(units "<b>", .array [.null, .string (units "\"&")])]) []
    = units "\x7b\n  \"<b>\": [\n    null,\n    \"\\\"&\"\n  ]\n\x7d" := by
  decide +kernel

end TemporalLight
