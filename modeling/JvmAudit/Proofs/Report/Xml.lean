import JvmAudit.Proofs.Report.Groups
import JvmAudit.Proofs.Text.Cut
import JvmAudit.Report.Xml

/-!
# What the XML text of a report tells

Two reports have the same text iff their groups show the same: the name of the class, the source
file, and of each violation the line, the description and the location (`Report.xml_eq_iff`). So
whatever characters a name or a description has, it is read as what it is. In particular no value
makes an element or hides one: the tags of the text are those of the groups and their violations
(`Report.tagNames_xml`).

The text is put together on three levels, and the argument is the same on each of them: what is
written for an item can be read off the front of a text, and the mark behind the last item is not
the start of a further one (`IsPrefixCode`). The items are the characters of an attribute value, the
violations of a group, and the groups of a report.
-/

namespace JvmAudit

/-! ## Items and a mark behind them -/

/-- What is written for an item tells what is seen of the item and where its text ends, and never
starts like the mark. -/
structure IsPrefixCode {α β : Type} (write : α → List Char) (seen : α → β)
    (mark : List Char) : Prop where
  item : ∀ a b x y, write a ++ x = write b ++ y ↔ seen a = seen b ∧ x = y
  mark_ne : ∀ a x y, write a ++ x ≠ mark ++ y

/-- Items in a row, with the mark behind them, can be read off the front. -/
theorem IsPrefixCode.flatMap_append_iff {α β : Type} {write : α → List Char} {seen : α → β}
    {mark : List Char} (h : IsPrefixCode write seen mark) {as bs : List α} {x y : List Char} :
    as.flatMap write ++ (mark ++ x) = bs.flatMap write ++ (mark ++ y) ↔
    as.map seen = bs.map seen ∧ x = y := by
  induction as generalizing bs with
  | nil =>
    cases bs with
    | nil => simp
    | cons b bs =>
      have hne := h.mark_ne b (bs.flatMap write ++ (mark ++ y)) x
      simp [hne.symm]
  | cons a as ih =>
    cases bs with
    | nil =>
      have hne := h.mark_ne a (as.flatMap write ++ (mark ++ x)) y
      simp [hne]
    | cons b bs =>
      rw [List.flatMap_cons, List.flatMap_cons, List.append_assoc, List.append_assoc, h.item, ih]
      simp [and_assoc]

/-! ## Attribute values -/

namespace Xml

/-- The characters that are escaped, by the names that stand for them. -/
def entities : List (List Char × Char) :=
  [("amp".toList, '&'), ("lt".toList, '<'), ("gt".toList, '>'), ("quot".toList, '"'),
    ("apos".toList, '\'')]

/-- The first character of an attribute value, and the rest of the text. -/
def readChar : List Char → Option (Char × List Char)
  | [] => none
  | c :: rest =>
    if c = '&' then
      (Text.cutFirst ';' rest).bind fun (name, rest) =>
        (entities.lookup name).map fun c => (c, rest)
    else some (c, rest)

theorem readChar_escapeChar (c : Char) (rest : List Char) :
    readChar (escapeChar c ++ rest) = some (c, rest) := by
  unfold escapeChar
  split
  · rfl
  · rfl
  · rfl
  · rfl
  · rfl
  · next hamp _ _ _ _ =>
    rw [List.singleton_append, readChar, if_neg hamp]

theorem notMem_escapeChar {c : Char} {x : Char} (hx : x = '<' ∨ x = '"') : x ∉ escapeChar c := by
  unfold escapeChar
  rcases hx with rfl | rfl
  · split <;> simp_all [eq_comm]
  · split <;> simp_all [eq_comm]

theorem escapeChar_ne_nil (c : Char) : escapeChar c ≠ [] := by
  intro h
  have hread := readChar_escapeChar c []
  rw [h] at hread
  cases hread

/-- A character is read off the front, and a quotation mark ends the value. -/
theorem isPrefixCode_escapeChar : IsPrefixCode escapeChar id ['"'] where
  item c d x y := by
    constructor
    · intro h
      have hread := congrArg readChar h
      rw [readChar_escapeChar, readChar_escapeChar] at hread
      simpa using hread
    · rintro ⟨rfl, rfl⟩
      rfl
  mark_ne c x y h := by
    obtain ⟨d, ds, hescape⟩ := List.exists_cons_of_ne_nil (escapeChar_ne_nil c)
    rw [hescape] at h
    have hquote : '"' ∈ escapeChar c := by
      rw [hescape, (List.cons.inj h).1]
      exact List.mem_cons_self
    exact notMem_escapeChar (.inr rfl) hquote

theorem toList_attr (name value : String) :
    (attr name value).toList =
      (" " ++ name ++ "=\"").toList ++ (value.toList.flatMap escapeChar ++ ['"']) := by
  simp [attr, escape]

/-- The value of an attribute is read off the front. -/
theorem attr_append_iff {name value value' : String} {x y : List Char} :
    (attr name value).toList ++ x = (attr name value').toList ++ y ↔ value = value' ∧ x = y := by
  simp only [toList_attr, List.append_assoc, List.append_right_inj,
    isPrefixCode_escapeChar.flatMap_append_iff, List.map_id, String.toList_inj]

theorem lt_notMem_attr {name value : String} (h : '<' ∉ name.toList) :
    '<' ∉ (attr name value).toList := by
  have hvalue : '<' ∉ value.toList.flatMap escapeChar := by
    intro hmem
    obtain ⟨c, -, hc⟩ := List.mem_flatMap.1 hmem
    exact notMem_escapeChar (.inl rfl) hc
  rw [toList_attr]
  simp [h, hvalue]

end Xml

/-! ## Elements -/

theorem toString_nat_inj {m n : Nat} : toString m = toString n ↔ m = n := by
  constructor
  · intro h
    have hdigits := congrArg (fun s => Nat.ofDigitChars 10 s.toList 0) h
    simpa using hdigits
  · rintro rfl
    rfl

namespace Violation

/-- What is seen of a violation. -/
def shown (v : Violation) : Nat × String × String := (v.line, v.description, v.location)

theorem toList_xml (v : Violation) :
    v.xml.toList = "    <violation".toList ++ ((Xml.attr "line" (toString v.line)).toList ++
    ((Xml.attr "description" v.description).toList ++
      ((Xml.attr "location" v.location).toList ++ " />\n".toList))) := by
  unfold xml
  simp only [String.toList_append, List.append_assoc]

/-- A violation is read off the front, and the end of the group is not the start of a violation. -/
theorem isPrefixCode_xml :
    IsPrefixCode (fun v : Violation => v.xml.toList) shown "  </class>\n".toList where
  item v w x y := by
    simp only [toList_xml, List.append_assoc, List.append_right_inj, Xml.attr_append_iff,
      toString_nat_inj, shown, Prod.mk.injEq, and_assoc]
  mark_ne v x y h := by
    rw [toList_xml] at h
    simp at h

end Violation

namespace ClassGroup

/-- What is seen of a group. -/
def shown (g : ClassGroup) : String × String × List (Nat × String × String) :=
  (g.className, g.sourceFile.getD "", g.violations.map Violation.shown)

theorem toList_xml (g : ClassGroup) :
    g.xml.toList = "  <class".toList ++ ((Xml.attr "name" g.className).toList ++
    ((Xml.attr "file" (g.sourceFile.getD "")).toList ++ (">\n".toList ++
      (g.violations.flatMap (fun v => v.xml.toList) ++ "  </class>\n".toList)))) := by
  unfold xml
  simp only [String.toList_append, String.toList_join, List.flatMap_map, List.append_assoc]

/-- A group is read off the front, and the end of the report is not the start of a group. -/
theorem isPrefixCode_xml :
    IsPrefixCode (fun g : ClassGroup => g.xml.toList) shown "</forbidden-apis>\n".toList where
  item g g' x y := by
    simp only [toList_xml, List.append_assoc, List.append_right_inj, Xml.attr_append_iff,
      Violation.isPrefixCode_xml.flatMap_append_iff, shown, Prod.mk.injEq, and_assoc]
  mark_ne g x y h := by
    rw [toList_xml] at h
    simp at h

end ClassGroup

namespace Report

theorem toList_xml (r : Report) : r.xml.toList = "<forbidden-apis>\n".toList ++
    (r.byClass.flatMap (fun g => g.xml.toList) ++ "</forbidden-apis>\n".toList) := by
  unfold xml
  rw [String.toList_append, String.toList_append, String.toList_join, List.append_assoc,
    List.flatMap_map]

/-- The text tells what is seen of the groups, and nothing else. -/
theorem xml_eq_iff {r r' : Report} :
    r.xml = r'.xml ↔ r.byClass.map ClassGroup.shown = r'.byClass.map ClassGroup.shown := by
  rw [← String.toList_inj, toList_xml, toList_xml, List.append_right_inj,
    ← List.append_nil "</forbidden-apis>\n".toList, ClassGroup.isPrefixCode_xml.flatMap_append_iff]
  exact ⟨fun h => h.1, fun h => ⟨h, rfl⟩⟩

end Report

/-! ## Tags -/

namespace Xml

/-- Whether the name of a tag ends here. -/
def endsName (c : Char) : Bool := c == ' ' || c == '>'

/-- The names of the tags of a text: what follows each `<`, up to a space or `>`. -/
def tagNames : List Char → List String
  | [] => []
  | c :: cs => if c = '<' then .ofList (cs.takeWhile (!endsName ·)) :: tagNames cs else tagNames cs

theorem tagNames_append_of_notMem {gap : List Char} (h : '<' ∉ gap) (cs : List Char) :
    tagNames (gap ++ cs) = tagNames cs := by
  induction gap with
  | nil => rfl
  | cons c gap ih =>
    rw [List.mem_cons, not_or] at h
    rw [List.cons_append, tagNames, if_neg (Ne.symm h.1), ih h.2]

/-- A tag in front of a text. What follows its name ends the name and has no further tag. -/
theorem tagNames_tag {name : String} {gap : List Char}
    (hname : name.toList.all fun c => !endsName c && c != '<')
    (hend : gap.head?.any endsName = true) (hgap : '<' ∉ gap) (cs : List Char) :
    tagNames ('<' :: (name.toList ++ (gap ++ cs))) = name :: tagNames cs := by
  have hword : ∀ c ∈ name.toList, (!endsName c) = true ∧ (c != '<') = true := by simpa using hname
  have hlt : '<' ∉ name.toList := fun hmem => by simpa using (hword _ hmem).2
  cases gap with
  | nil => cases hend
  | cons c gap =>
    have hc : endsName c = true := hend
    rw [tagNames, if_pos rfl, List.takeWhile_append_of_pos fun c hmem => (hword c hmem).1,
      tagNames_append_of_notMem hlt, tagNames_append_of_notMem hgap]
    simp [hc]

/-- Items in a row, each with its own tags. -/
theorem tagNames_flatMap {α : Type} {write : α → List Char} {tags : α → List String}
    (h : ∀ a cs, tagNames (write a ++ cs) = tags a ++ tagNames cs) (as : List α) (cs : List Char) :
    tagNames (as.flatMap write ++ cs) = as.flatMap tags ++ tagNames cs := by
  induction as with
  | nil => rfl
  | cons a as ih =>
    rw [List.flatMap_cons, List.append_assoc, h, ih, List.flatMap_cons, List.append_assoc]

theorem head?_attr (name value : String) (cs : List Char) :
    ((attr name value).toList ++ cs).head? = some ' ' := by
  simp [toList_attr]

end Xml

theorem Violation.tagNames_xml (v : Violation) (cs : List Char) :
    Xml.tagNames (v.xml.toList ++ cs) = ["violation"] ++ Xml.tagNames cs := by
  have hfront : "    <violation".toList = "    ".toList ++ '<' :: "violation".toList := rfl
  rw [toList_xml, hfront, List.append_assoc, List.append_assoc,
    Xml.tagNames_append_of_notMem (by decide), List.cons_append, Xml.tagNames_tag (by decide)]
  · rfl
  · rw [Xml.head?_attr]
    rfl
  · simp [Xml.lt_notMem_attr]

namespace ClassGroup

/-- The tags of a group. -/
def tags (g : ClassGroup) : List String :=
  "class" :: g.violations.flatMap (fun _ => ["violation"]) ++ ["/class"]

theorem tagNames_xml (g : ClassGroup) (cs : List Char) :
    Xml.tagNames (g.xml.toList ++ cs) = g.tags ++ Xml.tagNames cs := by
  have hfront : "  <class".toList = "  ".toList ++ '<' :: "class".toList := rfl
  have hback : "  </class>\n".toList = "  ".toList ++ '<' :: ("/class".toList ++ ">\n".toList) :=
    rfl
  -- the start tag with its attributes, then the violations, then the end tag
  have htext : g.xml.toList ++ cs = "  ".toList ++ '<' :: ("class".toList ++
      (((Xml.attr "name" g.className).toList ++
        ((Xml.attr "file" (g.sourceFile.getD "")).toList ++ ">\n".toList)) ++
        (g.violations.flatMap (fun v => v.xml.toList) ++
          ("  ".toList ++ '<' :: ("/class".toList ++ (">\n".toList ++ cs)))))) := by
    rw [toList_xml, hfront, hback]
    simp only [List.append_assoc, List.cons_append]
  rw [htext, Xml.tagNames_append_of_notMem (by decide), Xml.tagNames_tag (by decide),
    Xml.tagNames_flatMap Violation.tagNames_xml, Xml.tagNames_append_of_notMem (by decide),
    Xml.tagNames_tag (by decide) (by decide) (by decide)]
  · simp [tags]
  · rw [Xml.head?_attr]
    rfl
  · simp [Xml.lt_notMem_attr]

end ClassGroup

namespace Report

/-- The tags of the text are those of the groups, whatever characters their values have. -/
theorem tagNames_xml (r : Report) :
    Xml.tagNames r.xml.toList =
      "forbidden-apis" :: r.byClass.flatMap ClassGroup.tags ++ ["/forbidden-apis"] := by
  have hfront : "<forbidden-apis>\n".toList = '<' :: ("forbidden-apis".toList ++ ">\n".toList) :=
    rfl
  have hback : Xml.tagNames "</forbidden-apis>\n".toList = ["/forbidden-apis"] := by decide +kernel
  rw [toList_xml, hfront, List.cons_append, List.append_assoc,
    Xml.tagNames_tag (by decide) (by decide) (by decide),
      Xml.tagNames_flatMap ClassGroup.tagNames_xml, hback]
  rfl

/-- **The XML text of a report is unambiguous.** The groups of a report are its violations, cut
where the class changes. Two reports have the same text iff their groups show the same, in the same
order: the name of the class, the source file of the first violation, or nothing if it is not known,
and the line, description and location of each violation. The tags of the text are those of the
groups and their violations, so no value makes an element or hides one. -/
theorem xml_unambiguous (r r' : Report) :
    IsGrouping r.violations r.byClass ∧
    (r.xml = r'.xml ↔ r.byClass.map ClassGroup.shown = r'.byClass.map ClassGroup.shown) ∧
    Xml.tagNames r.xml.toList =
      "forbidden-apis" :: r.byClass.flatMap ClassGroup.tags ++ ["/forbidden-apis"] :=
  ⟨isGrouping_byClass r, xml_eq_iff, tagNames_xml r⟩

end Report

end JvmAudit
