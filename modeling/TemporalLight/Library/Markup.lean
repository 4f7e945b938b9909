import Mathlib.Data.List.Basic

/-!
# Markup of spans and text

Strings are lists of UTF-16 code units, as in JavaScript.  `parse` reads nested elements
`<span class="...">` and text with the four references `&amp;`, `&lt;`, `&gt;` and `&quot;`, and
refuses everything else: other tags, other references, a `>` outside of a tag, an end tag without
its start tag.

`Reads s nodes` says that `s` is read as `nodes` wherever it stands, so what is put together from
such strings is read as what they are read as:

* `Reads.append`   one string after the other
* `Reads.span`     a string in a span
* `reads_unit`     a character that is no markup
* `reads_ref`      a reference
-/

namespace Markup

abbrev Units := List UInt16

def units (text : String) : Units := text.toList.map fun c => UInt16.ofNat c.toNat

inductive Node where
  | unit (u : UInt16)
  | span (cls : Units) (children : List Node)

/-! ## parsing -/

/-- the lexer is in a text, or behind a `<` or a `&` and has read `read` since -/
inductive Mode where
  | text
  | tag (read : Units)
  | ref (read : Units)

/-- the elements that are open, the inner one first, each with its class and what stands before it
in its parent -/
abbrev Stack := List (Units × List Node)

/-- `class="..."`; a name has letters and hyphens only -/
def isNameUnit (u : UInt16) : Bool := u == 45 || (decide (97 ≤ u) && decide (u ≤ 122))

/-- the name in `span class="name"` -/
def startTag? (tag : Units) : Option Units :=
  let start := units "span class=\""
  let cls := (tag.drop start.length).dropLast
  if tag = start ++ cls ++ units "\"" ∧ cls.all isNameUnit = true then some cls else none

def refs : List (Units × UInt16) :=
  [(units "amp", 38), (units "lt", 60), (units "gt", 62), (units "quot", 34)]

def ref? (name : Units) : Option UInt16 := (refs.find? fun r => r.1 == name).map (·.2)

/-- a whole tag has been read, with `nodes` before it -/
def readTag (tag : Units) (stack : Stack) (nodes : List Node) : Option (Stack × List Node) :=
  if tag = units "/span" then match stack with
    | [] => none
    | (cls, before) :: stack => some (stack, before ++ [.span cls nodes])
  else (startTag? tag).map fun cls => ((cls, nodes) :: stack, [])

def parseFrom (mode : Mode) (stack : Stack) (nodes : List Node) : Units → Option (List Node)
  | [] => match mode, stack with
    | .text, [] => some nodes
    | _, _ => none
  | u :: rest => match mode with
    | .text =>
      if u = 60 then parseFrom (.tag []) stack nodes rest
      else if u = 38 then parseFrom (.ref []) stack nodes rest
      else if u = 62 then none
      else parseFrom .text stack (nodes ++ [.unit u]) rest
    | .tag read =>
      if u = 62 then match readTag read stack nodes with
        | some (stack, nodes) => parseFrom .text stack nodes rest
        | none => none
      else parseFrom (.tag (read ++ [u])) stack nodes rest
    | .ref read =>
      if u = 59 then match ref? read with
        | some u => parseFrom .text stack (nodes ++ [.unit u]) rest
        | none => none
      else parseFrom (.ref (read ++ [u])) stack nodes rest

def parse (s : Units) : Option (List Node) := parseFrom .text [] [] s

/-! ## what is parsed -/

mutual
/-- the text of a node, without the elements of hidden classes -/
def Node.content (hidden : Units → Bool) : Node → Units
  | .unit u => [u]
  | .span cls children => if hidden cls then [] else contentAll hidden children

def contentAll (hidden : Units → Bool) : List Node → Units
  | [] => []
  | node :: nodes => node.content hidden ++ contentAll hidden nodes
end

mutual
def Node.spansIn (classes : List Units) : Node → Bool
  | .unit _ => true
  | .span cls children => classes.contains cls && allSpansIn classes children

def allSpansIn (classes : List Units) : List Node → Bool
  | [] => true
  | node :: nodes => node.spansIn classes && allSpansIn classes nodes
end

variable {hidden : Units → Bool} {classes : List Units} {a b : List Node}

theorem contentAll_append :
    contentAll hidden (a ++ b) = contentAll hidden a ++ contentAll hidden b := by
  induction a with
  | nil => rfl
  | cons node a ih => rw [List.cons_append, contentAll, contentAll, ih, List.append_assoc]

theorem allSpansIn_append :
    allSpansIn classes (a ++ b) = (allSpansIn classes a && allSpansIn classes b) := by
  induction a with
  | nil => rfl
  | cons node a ih => rw [List.cons_append, allSpansIn, allSpansIn, ih, Bool.and_assoc]

theorem contentAll_singleton (node : Node) : contentAll hidden [node] = node.content hidden :=
  List.append_nil _

theorem allSpansIn_singleton (node : Node) :
    allSpansIn classes [node] = node.spansIn classes :=
  Bool.and_true _

/-! ## reading -/

/-- wherever the string stands in a text, it is read as these nodes -/
def Reads (s : Units) (nodes : List Node) : Prop := ∀ stack before rest,
  parseFrom .text stack before (s ++ rest) = parseFrom .text stack (before ++ nodes) rest

variable {s t : Units}

theorem Reads.parse (h : Reads s a) : parse s = some a := by
  have hs := h [] [] []
  rw [List.append_nil] at hs
  rw [Markup.parse, hs]
  rfl

theorem reads_nil : Reads [] [] := fun stack before rest => by
  rw [List.append_nil]
  rfl

theorem Reads.append (hs : Reads s a) (ht : Reads t b) : Reads (s ++ t) (a ++ b) :=
  fun stack before rest => by rw [List.append_assoc, hs, ht, List.append_assoc]

def isPlain (u : UInt16) : Bool := u != 60 && u != 38 && u != 62

theorem reads_unit {u : UInt16} (h : isPlain u = true) : Reads [u] [.unit u] := by
  intro stack before rest
  simp only [isPlain, Bool.and_eq_true, bne_iff_ne] at h
  obtain ⟨⟨hlt, hamp⟩, hgt⟩ := h
  rw [List.singleton_append, parseFrom]
  rw [if_neg hlt, if_neg hamp, if_neg hgt]

theorem reads_units (h : s.all isPlain = true) : Reads s (s.map .unit) := by
  induction s with
  | nil => exact reads_nil
  | cons u s ih =>
    rw [List.all_cons, Bool.and_eq_true] at h
    exact (reads_unit h.1).append (ih h.2)

theorem parseFrom_tag {tag : Units} (h : tag.all (· != 62) = true) (read : Units) (stack : Stack)
    (before : List Node) (rest : Units) :
    parseFrom (.tag read) stack before (tag ++ 62 :: rest)
      = match readTag (read ++ tag) stack before with
        | some (stack, nodes) => parseFrom .text stack nodes rest
        | none => none := by
  induction tag generalizing read with
  | nil => rw [List.append_nil, List.nil_append, parseFrom, if_pos rfl]
  | cons u tag ih =>
    rw [List.all_cons, Bool.and_eq_true, bne_iff_ne] at h
    obtain ⟨hu, htag⟩ := h
    rw [List.cons_append, parseFrom, if_neg hu, ih htag, List.append_assoc]
    rfl

theorem parseFrom_ref {name : Units} (h : name.all (· != 59) = true) (read : Units) (stack : Stack)
    (before : List Node) (rest : Units) :
    parseFrom (.ref read) stack before (name ++ 59 :: rest)
      = match ref? (read ++ name) with
        | some u => parseFrom .text stack (before ++ [.unit u]) rest
        | none => none := by
  induction name generalizing read with
  | nil => rw [List.append_nil, List.nil_append, parseFrom, if_pos rfl]
  | cons u name ih =>
    rw [List.all_cons, Bool.and_eq_true, bne_iff_ne] at h
    obtain ⟨hu, hname⟩ := h
    rw [List.cons_append, parseFrom, if_neg hu, ih hname, List.append_assoc]
    rfl

theorem reads_ref (name : Units) {u : UInt16} (hname : name.all (· != 59) = true)
    (href : ref? name = some u) : Reads (38 :: (name ++ [59])) [.unit u] := by
  intro stack before rest
  rw [List.cons_append, List.append_assoc, parseFrom, if_neg (by decide), if_pos rfl]
  show parseFrom (.ref []) stack before (name ++ 59 :: rest) = _
  rw [parseFrom_ref hname, List.nil_append, href]

/-! ## elements -/

/-- `<span class="cls">` -/
def startTag (cls : Units) : Units := units "<span class=\"" ++ cls ++ units "\">"

/-- `</span>` -/
def endTag : Units := units "</span>"

theorem startTag?_eq {cls : Units} (h : cls.all isNameUnit = true) :
    startTag? (units "span class=\"" ++ cls ++ units "\"") = some cls := by
  have hcls : ((units "span class=\"" ++ cls ++ units "\"").drop
      (units "span class=\"").length).dropLast = cls := by
    rw [List.append_assoc, List.drop_left]
    exact List.dropLast_concat
  rw [startTag?, hcls, if_pos ⟨rfl, h⟩]

theorem startTag_closed {cls : Units} (h : cls.all isNameUnit = true) :
    (units "span class=\"" ++ cls ++ units "\"").all (· != 62) = true := by
  have hcls : cls.all (· != 62) = true := by
    rw [List.all_eq_true] at h ⊢
    intro u hu
    rw [bne_iff_ne]
    rintro rfl
    exact absurd (h 62 hu) (by decide)
  rw [List.all_append, List.all_append, hcls]
  rfl

theorem readTag_start {cls : Units} (h : cls.all isNameUnit = true) (stack : Stack)
    (before : List Node) :
    readTag (units "span class=\"" ++ cls ++ units "\"") stack before
      = some ((cls, before) :: stack, []) := by
  unfold readTag
  rw [if_neg (fun heq => by simp [units] at heq), startTag?_eq h]
  rfl

/-- **What stands in a span is its children.** -/
theorem Reads.span (cls : Units) (hcls : cls.all isNameUnit = true) (h : Reads s a) :
    Reads (startTag cls ++ s ++ endTag) [.span cls a] := by
  intro stack before rest
  let tag := units "span class=\"" ++ cls ++ units "\""
  have hstart (stack : Stack) (before : List Node) (rest : Units) :
      parseFrom .text stack before (startTag cls ++ rest)
        = parseFrom .text ((cls, before) :: stack) [] rest := by
    have htag : startTag cls ++ rest = 60 :: (tag ++ 62 :: rest) := by
      simp only [startTag, tag, List.append_assoc]
      rfl
    rw [htag, parseFrom, if_pos rfl, parseFrom_tag (startTag_closed hcls), List.nil_append,
      readTag_start hcls]
  have hend (rest : Units) : parseFrom .text ((cls, before) :: stack) a (endTag ++ rest)
      = parseFrom .text stack (before ++ [.span cls a]) rest := by
    have htag : endTag ++ rest = 60 :: (units "/span" ++ 62 :: rest) := rfl
    rw [htag, parseFrom, if_pos rfl, parseFrom_tag rfl]
    rfl
  rw [List.append_assoc, List.append_assoc, hstart, h, List.nil_append, hend]

end Markup
