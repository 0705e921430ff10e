/-
A stencil's text travels inside a style and comes out unchanged.

A token consists of letters, digits and three marks, none of which means anything to the list of
entries around it: no blank, no semicolon. So the entry is found, its value is told from the built-in
shapes by its beginning, and the token in it unpacks to the text that was packed. A text has no other
token, for base64 and UTF-8 are read strictly: what unpacks to it is what it packs to, but for blanks around.
-/
import StencilKit.Proofs.Drawing.Entries
import StencilKit.Proofs.Text.Base64
import StencilKit.Proofs.Text.Blank
import StencilKit.Proofs.Text.Utf8
import StencilKit.Stencil.Token

namespace StencilKit

/-- The characters of a token are no blanks, and no marks of a style. -/
theorem Token.of_mem_pack {text : String} {c : Char} (h : c ∈ (pack text).toList) :
    c ≠ ';' ∧ c ≠ ')' ∧ isBlank c = false := by
  rw [pack, String.toList_ofList] at h
  exact Base64.of_mem_encode (p := fun c => c ≠ ';' ∧ c ≠ ')' ∧ isBlank c = false) (by decide) (by decide) _ c h

theorem Token.trimBlanks_pack (text : String) : trimBlanks (pack text).toList = (pack text).toList :=
  trimBlanks_eq_self fun _ hc => (of_mem_pack hc).2.2

/-- **What was packed is unpacked.** -/
theorem Token.unpack_pack (text : String) : unpack (pack text) = .ok text := by
  rw [unpack, trimBlanks_pack, pack, String.toList_ofList, Base64.decode_encode]
  simp only [Except.mapError, bind, Except.bind, Utf8.decode_encode, pure, Except.pure, String.ofList_toList]

/-- **What is unpacked was packed**: a text has one token, but for blanks around it. -/
theorem Token.pack_of_unpack {token text : String} (h : unpack token = .ok text) :
    pack text = .ofList (trimBlanks token.toList) := by
  rw [unpack] at h
  cases hbytes : Base64.decode (Utf8.encode (trimBlanks token.toList)) with
  | error fault =>
    rw [hbytes] at h
    cases h
  | ok bytes =>
    cases hchars : Utf8.decode bytes with
    | error fault =>
      simp only [hbytes, hchars, Except.mapError, bind, Except.bind] at h
      cases h
    | ok chars =>
      simp only [hbytes, hchars, Except.mapError, bind, Except.bind] at h
      cases h
      have htoken := Utf8.encode_injective (Base64.encode_of_decode hbytes)
      rw [pack, String.toList_ofList, Utf8.encode_of_decode hchars, htoken]

namespace ShapeRef

/-- A token between its marks is told from every other name. -/
theorem ofTrimmed_embedded (token : List Char) :
    ofTrimmed (tokenMark ++ token ++ [')']) = .embedded (.ofList token) := by
  have hmark : tokenMark = ['s', 't', 'e', 'n', 'c', 'i', 'l', '('] := rfl
  have htoken : token? (tokenMark ++ token ++ [')']) = some token := by
    have hdrop : (tokenMark ++ token ++ [')']).drop tokenMark.length = token ++ [')'] := by
      rw [List.append_assoc, List.drop_left]
    have hprefix : tokenMark.isPrefixOf (tokenMark ++ token ++ [')']) = true := by
      rw [List.isPrefixOf_iff_prefix, List.append_assoc]
      exact List.prefix_append _ _
    rw [token?, hdrop, hprefix]
    simp
  rw [ofTrimmed, if_neg, if_neg, htoken]
  · rw [hmark]
    simp
  · rw [hmark]
    simp

/-- **The shape of a style that carries a token.** -/
theorem ofStyle?_packed (text : String) :
    ofStyle? (style (.embedded (Token.pack text))) = some (.embedded (Token.pack text)) := by
  have hname : (embedded (Token.pack text)).name.toList = tokenMark ++ (Token.pack text).toList ++ [')'] :=
    String.toList_ofList
  have hplain : ';' ∉ (embedded (Token.pack text)).name.toList := by
    rw [hname]
    intro h
    rcases List.mem_append.1 h with h | h
    · rcases List.mem_append.1 h with h | h
      · exact absurd h (by decide)
      · exact (Token.of_mem_pack h).1 rfl
    · exact absurd h (by decide)
  have htrim : trimBlanks (tokenMark ++ (Token.pack text).toList ++ [')']) =
      tokenMark ++ (Token.pack text).toList ++ [')'] := by
    have hends : tokenMark = 's' :: ['t', 'e', 'n', 'c', 'i', 'l', '('] := rfl
    rw [hends]
    exact trimBlanks_eq_self_of_ends (by decide) (by decide)
  rw [ofStyle?_style hplain, ofName, hname, htrim, ofTrimmed_embedded, String.ofList_toList]

end ShapeRef

/-- **A token can stand in a style, and it stands for one text.** Nothing in it ends an entry or the
brackets around it, so the style that carries it is read as carrying it; it is unpacked to the text; and
whatever is unpacked to the text is this token, with blanks around it or without. -/
theorem Token.unpack_eq_ok_iff (text : String) :
    (∀ c ∈ (pack text).toList, c ≠ ';' ∧ c ≠ ')' ∧ isBlank c = false) ∧
      ShapeRef.ofStyle? (ShapeRef.style (.embedded (pack text))) = some (.embedded (pack text)) ∧
      unpack (pack text) = .ok text ∧
      ∀ token, unpack token = .ok text ↔ pack text = .ofList (trimBlanks token.toList) := by
  refine ⟨fun c => of_mem_pack, ShapeRef.ofStyle?_packed text, unpack_pack text, fun token =>
    ⟨pack_of_unpack, fun h => ?_⟩⟩
  have htoken : trimBlanks (pack text).toList = trimBlanks token.toList := by
    rw [trimBlanks_pack, h, String.toList_ofList]
  have hpack := unpack_pack text
  rwa [unpack, htoken, ← unpack] at hpack

end StencilKit
