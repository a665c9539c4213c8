import CallerTree.CallTree

/-!
# Caller trees as outlines

One function a line, with branches drawn in front:

```
target
└── helper  (a.c:1)
    └── helper2  (b.c:1)
```
-/

namespace CallerTree

namespace Outline

def siteNote : Option Occurrence → Text
  | some site => "  (" ++ site.file ++ ":" ++ Text.ofInt site.line ++ ")"
  | none => []

/-- A mark on a recursive function, and on one that carries the flag of the depth limit and has no
callers. -/
def endNote (head : Head) (isLeaf : Bool) : Text :=
  if head.isRecursive then " [recursive]"
  else if 0 < head.depth ∧ head.atDepthLimit ∧ isLeaf then " [max depth]"
  else []

def line (head : Head) (isLeaf : Bool) : Text :=
  head.name ++ siteNote head.site ++ endNote head isLeaf

mutual

/-- A tree whose first line follows `lead` and whose further lines follow `indent`. -/
def render (lead indent : Text) : CallTree → Text
  | .absent => []
  | .node head callers => lead ++ line head callers.isEmpty ++ "\n" ++ renderAll indent callers

def renderAll (indent : Text) : List CallTree → Text
  | [] => []
  | t :: rest =>
    (if rest.isEmpty then render (indent ++ "└── ") (indent ++ "    ") t
      else render (indent ++ "├── ") (indent ++ "│   ") t) ++ renderAll indent rest

end

end Outline

def CallTree.outline (t : CallTree) : Text := Outline.render [] [] t

end CallerTree
