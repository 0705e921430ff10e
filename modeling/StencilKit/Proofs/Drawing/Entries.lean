/-
The entries of a style.

A style may hold much besides the shape. The entry for the shape is the first one whose key says so, and it is found
whatever entries stand before it and whatever text comes after it: no entry reaches past its semicolon, and of an
entry it is the first equals sign that ends the key, so that the value may hold more of them
(`ofStyle?_first_shape`).
-/
import StencilKit.Proofs.Drawing.ShapeRef
import StencilKit.Proofs.Text.Blank

namespace StencilKit

/-- Parts that are each followed by the mark are told apart again. -/
theorem splitAtEach_flatMap {mark : Char} {parts : List (List Char)} (h : ∀ part ∈ parts, mark ∉ part)
    (rest : List Char) :
    splitAtEach mark (parts.flatMap (· ++ [mark]) ++ rest) = parts ++ splitAtEach mark rest := by
  induction parts with
  | nil => rfl
  | cons part parts ih =>
    obtain ⟨hpart, hparts⟩ := List.forall_mem_cons.1 h
    rw [List.flatMap_cons, List.append_assoc, List.append_assoc, List.singleton_append, splitAtEach_append hpart,
      ih hparts, List.cons_append]

namespace ShapeRef

/-- An entry of a style that has another key or none: it is a single entry, and what stands before its first equals
sign, if there is one, is not the key. Blanks around a key do not count. -/
structure IsOther (key entry : List Char) : Prop where
  single : ';' ∉ entry
  differs : ∀ before value, entry = before ++ '=' :: value → '=' ∉ before → trimBlanks before ≠ key

theorem isOther_iff {key entry : List Char} :
    IsOther key entry ↔ ';' ∉ entry ∧ ∀ parts ∈ splitAtFirst '=' entry, trimBlanks parts.1 ≠ key := by
  constructor
  · rintro ⟨hsingle, hdiffers⟩
    refine ⟨hsingle, fun parts hparts => ?_⟩
    obtain ⟨hentry, hbefore⟩ := splitAtFirst_eq_some.1 hparts
    exact hdiffers parts.1 parts.2 hentry hbefore
  · rintro ⟨hsingle, hdiffers⟩
    exact ⟨hsingle, fun before value hentry hbefore =>
      hdiffers (before, value) (splitAtFirst_eq_some.2 ⟨hentry, hbefore⟩)⟩

instance (key entry : List Char) : Decidable (IsOther key entry) := decidable_of_iff' _ isOther_iff

/-- **The value of an entry is found again**, whatever other entries stand before it and whatever comes after it,
unless it holds a mark that ends entries. -/
theorem valueOf?_append {key value : List Char} {entries : List (List Char)} (hkey : trimBlanks key = key)
    (hmark : '=' ∉ key) (hentry : ';' ∉ key ++ '=' :: value) (hentries : ∀ e ∈ entries, IsOther key e)
    (rest : List Char) :
    valueOf? key (entries.flatMap (· ++ [';']) ++ ((key ++ '=' :: value) ++ ';' :: rest)) = some value := by
  rw [valueOf?, splitAtEach_flatMap fun e he => (hentries e he).single, splitAtEach_append hentry,
    List.filterMap_append, List.findSome?_append]
  refine Option.or_eq_some_iff.2 (.inr ⟨?_, ?_⟩)
  · rw [List.findSome?_eq_none_iff]
    intro parts hparts
    obtain ⟨e, he, hsplit⟩ := List.mem_filterMap.1 hparts
    exact if_neg ((isOther_iff.1 (hentries e he)).2 parts hsplit)
  · rw [List.filterMap_cons, splitAtFirst_append hmark]
    simp only [List.findSome?_cons, hkey, if_true]

/-- **The shape of a style is the shape that its first entry for the shape names**, unless the name holds a
semicolon. -/
theorem ofStyle?_append {shape : ShapeRef} (h : ';' ∉ shape.name.toList) {entries : List String}
    (hentries : ∀ e ∈ entries, IsOther "shape".toList e.toList) (rest : String) :
    ofStyle? (String.join (entries.map (· ++ ";")) ++ shape.style ++ rest) = some (ofName shape.name) := by
  -- The key is kept from being spelled out, which would hide that the style begins with it.
  obtain ⟨key, hkey⟩ : ∃ key, key = "shape".toList := ⟨_, rfl⟩
  rw [← hkey] at hentries
  have hbegin : "shape=".toList = key ++ ['='] := by
    rw [hkey]
    decide
  have hentry : ';' ∉ key ++ '=' :: shape.name.toList := by
    intro hmem
    rcases List.mem_append.1 hmem with hmem | hmem
    · rw [hkey] at hmem
      exact absurd hmem (by decide)
    · rcases List.mem_cons.1 hmem with hmem | hmem
      · exact absurd hmem (by decide)
      · exact h hmem
  have hshape : shape.style.toList = (key ++ '=' :: shape.name.toList) ++ [';'] := by
    calc shape.style.toList
        = "shape=".toList ++ shape.name.toList ++ [';'] := String.toList_ofList
      _ = key ++ ['='] ++ shape.name.toList ++ [';'] := congr (congrArg _ (congrArg (· ++ _) hbegin)) rfl
      _ = (key ++ '=' :: shape.name.toList) ++ [';'] := by simp
  have hstyle : (String.join (entries.map (· ++ ";")) ++ shape.style ++ rest).toList =
      (entries.map String.toList).flatMap (· ++ [';']) ++
        ((key ++ '=' :: shape.name.toList) ++ ';' :: rest.toList) := by
    rw [String.toList_append, String.toList_append, String.toList_join, List.flatMap_map, List.flatMap_map, hshape,
      List.append_assoc, List.append_assoc, List.singleton_append]
    simp only [String.toList_append]
    rfl
  have hfound := valueOf?_append (by rw [hkey]; decide) (by rw [hkey]; decide) hentry
    (List.forall_mem_map.2 hentries) rest.toList
  rw [ofStyle?, ← hkey, hstyle, hfound, Option.map_some, ofName]

theorem ofStyle?_style {shape : ShapeRef} (h : ';' ∉ shape.name.toList) :
    ofStyle? (style shape) = some (ofName shape.name) := by
  have hstyle := ofStyle?_append h (List.forall_mem_nil _) ""
  rwa [List.map_nil, String.join_nil, String.empty_append, String.append_empty] at hstyle

/-- **A shape's name stands for the shape**: what a name means is meant by its own name too. And a style names the
shape by its first entry with the key, with any other entries before it and any text after it, as long as no
semicolon in the name ends the entry. -/
theorem ofStyle?_first_shape (t : String) :
    ofName (ofName t).name = ofName t ∧
      ∀ entries : List String, (∀ e ∈ entries, IsOther "shape".toList e.toList) → ';' ∉ (ofName t).name.toList →
        ∀ rest : String,
          ofStyle? (String.join (entries.map (· ++ ";")) ++ (ofName t).style ++ rest) = some (ofName t) := by
  refine ⟨ofName_name_ofName t, fun entries hentries h rest => ?_⟩
  rw [ofStyle?_append h hentries, ofName_name_ofName]

/-- A bare word, entries whose keys or values come near to it, and a name with an equals sign. -/
theorem ofStyle?_first_shape_equated :
    (∀ e ∈ ["shape", "shapes = x", "rounded=shape=1"], IsOther "shape".toList e.toList) ∧
      ';' ∉ (ofName " disk=1 ").name.toList ∧
      ofStyle? "shape;shapes = x;rounded=shape=1;shape=disk=1;shape=ellipse;" = some (.named "disk=1") := by
  have hentries : ∀ e ∈ ["shape", "shapes = x", "rounded=shape=1"], IsOther "shape".toList e.toList := by
    decide
  have hname : ofName " disk=1 " = .named "disk=1" := by decide +kernel
  have hmark : ';' ∉ (ofName " disk=1 ").name.toList := by
    rw [hname]
    decide
  have hfound := (ofStyle?_first_shape " disk=1 ").2 _ hentries hmark "shape=ellipse;"
  rw [hname] at hfound
  exact ⟨hentries, hmark, hfound⟩

end ShapeRef

end StencilKit
