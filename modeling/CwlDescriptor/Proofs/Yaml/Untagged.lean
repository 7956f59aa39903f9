import CwlDescriptor.Proofs.Entries
import CwlDescriptor.Proofs.Yaml.Loading
set_option autoImplicit false

/-!
# Texts without tags

The tag of a node without one is that of its kind, of its content, or that of a text. Only tags of
bytes and of dates have values that are not plain, and no content calls for them: a content in the
form of a date is a text. So a text without tags is loaded as a plain document, in which each date
is there as it is written.

## Main definitions

* `Node.IsPlain`: documents of maps, lists, truth values, numbers, texts and null.
* `IsTimestamp`: the form of a date, or of a date and a time.
* `Tree.Untagged`: the trees without tags.
* `Tree.LoadsAs`, `EventsLoadAs`: what is loaded from a tree, or from events, without tags.

## Main results

* `ofContent_eq_str`: what begins with a year and a hyphen is a text.
* `Tree.loadsAs_of_fill`: what is loaded from a tree without tags is plain.
* `load_untagged`: what is loaded from a text without tags is plain, and its dates are texts.
-/

namespace CwlDescriptor

/-! ## Plain documents -/

/-- The scalar is null, a truth value, a number or a text. -/
def Scalar.IsPlain : Scalar → Prop
  | .bytes _ | .date _ | .time _ _ => False
  | _ => True

/-- A document of maps, lists, and scalars that are null, truth values, numbers and texts. -/
inductive Node.IsPlain : Node → Prop
  | scalar {value : Scalar} (hvalue : value.IsPlain) : IsPlain (.scalar value)
  | list {items : List Node} (hitems : ∀ n ∈ items, IsPlain n) : IsPlain (.list items)
  | map {entries : Entries} (hkeys : ∀ e ∈ entries, e.1.IsPlain)
    (hvalues : ∀ e ∈ entries, IsPlain e.2) : IsPlain (.map entries)

namespace Yaml

/-! ## Dates -/

/-- A number of between `least` and `most` digits. -/
def IsNumber (least most : Nat) (s : List Char) : Prop :=
  least ≤ s.length ∧ s.length ≤ most ∧ s.all Char.isDigit

instance (least most : Nat) (s : List Char) : Decidable (IsNumber least most s) :=
  inferInstanceAs (Decidable (_ ∧ _ ∧ _))

/-- What stands between a date and a time: a letter, or blanks. -/
inductive IsTimeMark : List Char → Prop
  | letter {c : Char} (hc : c = 'T' ∨ c = 't') : IsTimeMark [c]
  | blanks {s : List Char} (hne : s ≠ []) (hs : s.all isSpaceOrTab) : IsTimeMark s

/-- A fraction of a second, which may be left out. -/
inductive IsFraction : List Char → Prop
  | none : IsFraction []
  | digits {s : List Char} (hs : s.all Char.isDigit) : IsFraction ('.' :: s)

/-- The place of a time: universal time, or hours and perhaps minutes from it. -/
inductive IsZone : List Char → Prop
  | universal : IsZone ['Z']
  | hours {sign : Char} {h : List Char} (hsign : sign = '+' ∨ sign = '-') (hh : IsNumber 1 2 h) :
    IsZone (sign :: h)
  | minutes {sign : Char} {h m : List Char} (hsign : sign = '+' ∨ sign = '-') (hh : IsNumber 1 2 h)
    (hm : IsNumber 2 2 m) : IsZone (sign :: (h ++ ':' :: m))

/-- The form of a date, or of a date and a time, which may have a place behind blanks. -/
inductive IsTimestamp : List Char → Prop
  | date {year month day : List Char} (hyear : IsNumber 4 4 year) (hmonth : IsNumber 2 2 month)
    (hday : IsNumber 2 2 day) : IsTimestamp (year ++ '-' :: (month ++ '-' :: day))
  | time {year month day mark hour minute second fraction blanks zone : List Char}
    (hyear : IsNumber 4 4 year) (hmonth : IsNumber 1 2 month) (hday : IsNumber 1 2 day)
    (hmark : IsTimeMark mark) (hhour : IsNumber 1 2 hour) (hminute : IsNumber 2 2 minute)
    (hsecond : IsNumber 2 2 second) (hfraction : IsFraction fraction)
    (hzone : blanks = [] ∧ zone = [] ∨ blanks.all isSpaceOrTab ∧ IsZone zone) :
    IsTimestamp (year ++ '-' :: (month ++ '-' :: (day ++ (mark ++ (hour ++ ':' :: (minute ++ ':' ::
      (second ++ (fraction ++ (blanks ++ zone)))))))))

/-- A date begins with a number of four digits and a hyphen. -/
private lemma IsTimestamp.exists_year {s : List Char} (h : IsTimestamp s) :
    ∃ year rest, IsNumber 4 4 year ∧ s = year ++ '-' :: rest := by
  cases h with
  | date hyear _ _ | time hyear _ _ _ _ _ _ _ _ => exact ⟨_, _, hyear, rfl⟩

section Timestamp

variable {year : List Char} (hyear : IsNumber 4 4 year) (rest : List Char)

include hyear

/-- A year and a hyphen have no other characters than digits and the hyphen. -/
private lemma not_mem_year {c : Char} (hc : c.isDigit = false) (hne : c ≠ '-') :
    c ∉ year ++ ['-'] := by
  intro hmem
  rcases List.mem_append.1 hmem with hmem | hmem
  · exact absurd (List.all_eq_true.1 hyear.2.2 c hmem) (by simp [hc])
  · exact hne (List.mem_singleton.1 hmem)

/-- What begins with a year and a hyphen does not consist of places. -/
private lemma exists_not_hasDigits :
    ∃ place ∈ Text.splitOn ':' (year ++ '-' :: rest), ¬ HasDigits place := by
  obtain ⟨first, others, hsplit⟩ :=
    Text.exists_splitOn_prepend (not_mem_year hyear (c := ':') (by decide) (by decide)) rest
  rw [List.append_assoc, List.singleton_append] at hsplit
  refine ⟨_, hsplit ▸ List.mem_cons_self, fun h => ?_⟩
  exact absurd (h.all '-' (by simp)) (by decide)

/-- A year begins with two digits. -/
private lemma exists_digits : ∃ a b digits, year = a :: b :: digits ∧ a.isDigit ∧ b.isDigit := by
  obtain ⟨hlength, -, hdigits⟩ := hyear
  rcases year with _ | ⟨a, _ | ⟨b, digits⟩⟩
  · simp at hlength
  · simp at hlength
  · rw [List.all_cons, List.all_cons, Bool.and_eq_true, Bool.and_eq_true] at hdigits
    exact ⟨a, b, digits, rfl, hdigits.1, hdigits.2.1⟩

/-- What begins with a year and a hyphen has not the form of an integer. -/
private lemma not_intForm : ¬ IntForm (year ++ '-' :: rest) := by
  obtain ⟨place, hplace, hnot⟩ := exists_not_hasDigits hyear rest
  obtain ⟨a, b, digits, hab, -, hb⟩ := exists_digits hyear
  intro h
  generalize hs : year ++ '-' :: rest = s at h hplace
  have hmem : '-' ∈ s := by simp [← hs]
  rw [hab] at hs
  cases h with
  | binary _ _ | hexadecimal _ _ =>
    obtain ⟨-, htail⟩ := List.cons.inj hs
    rw [(List.cons.inj htail).1] at hb
    exact absurd hb (by decide)
  | octal hdigits =>
    have hminus := hdigits '-' ((List.mem_cons.1 hmem).resolve_left (by decide)) (by decide)
    exact absurd hminus.2 (by decide)
  | places _ _ hplaces => exact hnot (hplaces place hplace)

/-- What begins with a year and a hyphen has not the form of a floating point number. -/
private lemma not_floatForm : ¬ FloatForm (year ++ '-' :: rest) := by
  have hpoint := not_mem_year hyear (c := '.') (by decide) (by decide)
  have hwhole {whole fraction : List Char}
      (h : (year ++ ['-']) ++ rest = whole ++ '.' :: fraction) :
      ∃ u, whole = year ++ '-' :: u := by
    rcases List.append_eq_append_iff.1 h with ⟨u, hu, -⟩ | ⟨u, hu, hr⟩
    · exact ⟨u, by simpa using hu⟩
    · cases u with
      | nil => exact ⟨[], by simpa using hu.symm⟩
      | cons c u =>
        obtain ⟨rfl, -⟩ := List.cons.inj hr
        exact absurd (hu ▸ List.mem_append_right whole List.mem_cons_self) hpoint
  intro h
  generalize hs : year ++ '-' :: rest = s at h
  rw [← List.singleton_append, ← List.append_assoc] at hs
  cases h with
  | decimal hdigits =>
    obtain ⟨u, rfl⟩ := hwhole hs
    exact absurd (hdigits '-' (by simp)) (by decide)
  | places hplaces =>
    obtain ⟨u, rfl⟩ := hwhole hs
    obtain ⟨place, hplace, hnot⟩ := exists_not_hasDigits hyear u
    exact hnot ((places_of_isSexagesimal hplaces).2.2 place hplace)
  | word word hword =>
    have hhead : ∀ word ∈ [".inf", ".Inf", ".INF", ".nan", ".NaN", ".NAN"],
        word.toList = [] ++ '.' :: word.toList.tail := by decide
    obtain ⟨u, hu⟩ := hwhole (hs.trans (hhead word hword))
    simp at hu

/-- What begins with a year and a hyphen is no word with a meaning. -/
private lemma ofWord_eq_str : Tag.ofWord (year ++ '-' :: rest) = .str := by
  obtain ⟨a, b, digits, hab, ha, -⟩ := exists_digits hyear
  generalize hs : year ++ '-' :: rest = s
  have hcons : s = a :: (b :: digits ++ '-' :: rest) := by rw [← hs, hab]; rfl
  have hsign : (Binary64.cutSign s).2 = s := by
    rw [hcons, cutSign_of_ne] <;> (rintro rfl; exact absurd ha (by decide))
  have hfloat : ¬ Tag.isFloat s = true := fun h =>
    not_floatForm hyear rest (by rw [hs, ← hsign]; exact floatForm_of_isFloat h)
  have hint : ¬ Tag.isInt s = true := fun h =>
    not_intForm hyear rest (by rw [hs, ← hsign]; exact intForm_of_isIntMagnitude h)
  -- All words with a meaning of their own begin with something else than a digit.
  have hheads : ∀ word ∈ Tag.boolWords ++ (Tag.nullWords ++ ["<<", "=", "!", "&", "*"]),
      word.toList.head?.any Char.isDigit = false := by decide
  have hne : ∀ word ∈ Tag.boolWords ++ (Tag.nullWords ++ ["<<", "=", "!", "&", "*"]),
      String.ofList s ≠ word := by
    rintro word hmem rfl
    have hhead := hheads _ hmem
    rw [String.toList_ofList, hcons] at hhead
    exact absurd hhead (by simp [ha])
  have hbool : ¬ Tag.boolWords.contains (String.ofList s) = true := fun h =>
    hne _ (List.mem_append_left _ (List.contains_iff_mem.1 h)) rfl
  have hnull : ¬ Tag.nullWords.contains (String.ofList s) = true := fun h =>
    hne _ (List.mem_append_right _ (List.mem_append_left _ (List.contains_iff_mem.1 h))) rfl
  have hmarks : ∀ word ∈ ["<<", "=", "!", "&", "*"], String.ofList s ≠ word := fun word hword =>
    hne word (List.mem_append_right _ (List.mem_append_right _ hword))
  simp only [List.forall_mem_cons] at hmarks
  obtain ⟨hmerge, hvalue, htag, hanchor, halias, -⟩ := hmarks
  simp only [Tag.ofWord, hbool, hfloat, hint, hmerge, hnull, hvalue, htag, hanchor, halias,
    if_false, decide_false, Bool.or_self, Bool.false_eq_true]

/-- A content that begins with a year and a hyphen is a text. -/
lemma ofContent_eq_str : Tag.ofContent (year ++ '-' :: rest) = .str := by
  have hne {t : List Char} : ¬ (year ++ '-' :: t).isEmpty = true := by simp
  obtain ⟨t, ht⟩ : ∃ t, (if (year ++ '-' :: rest).getLast? = some '\n'
      then (year ++ '-' :: rest).dropLast else year ++ '-' :: rest) = year ++ '-' :: t := by
    split_ifs with hlast
    · obtain rfl | ⟨inner, last, rfl⟩ := List.eq_nil_or_concat' rest
      · simp at hlast
      · rw [← List.cons_append, ← List.append_assoc, List.dropLast_concat]
        exact ⟨inner, rfl⟩
    · exact ⟨rest, rfl⟩
  rw [Tag.ofContent, if_neg hne, ht, if_neg hne]
  exact ofWord_eq_str hyear t

end Timestamp

/-! ## Values of scalars without tags -/

/-- A floating point number is plain. -/
private lemma ensures_readFloat (text : String) :
    Except.Ensures Scalar.IsPlain (fun _ => True) (readFloat text) := by
  refine .ite (fun _ => trivial) fun _ => .ite (fun _ => trivial) fun _ => ?_
  refine .ite (fun _ => trivial) fun _ => .ite (fun _ => ?_) fun _ => ?_
  · exact (Except.ensures_true _).bind fun _ _ => (Except.ensures_true _).bind fun _ _ => trivial
  · exact (Except.ensures_true _).bind fun _ _ => trivial

/-- Only tags of bytes and of dates have values that are not plain. -/
private lemma ensures_readScalar {tag : Tag} (htag : tag ∉ [.binary, .timestamp]) (text : String) :
    Except.Ensures Scalar.IsPlain (fun _ => True) (readScalar tag text) := by
  cases tag with
  | binary | timestamp => exact absurd (by simp) htag
  | null | str | omap | pairs | set | seq | map | merge | value | other => trivial
  | bool => exact (Except.ensures_true (readBool text)).map fun _ _ => trivial
  | int => exact (Except.ensures_true (readInteger text)).map fun _ _ => trivial
  | float => exact ensures_readFloat text

/-- A content decides on no tag of bytes or of a date. -/
private lemma ofContent_not_mem (s : List Char) : Tag.ofContent s ∉ [.binary, .timestamp] := by
  have hword (s : List Char) : Tag.ofWord s ∉ [.binary, .timestamp] := by
    rcases ofWord_cases s with ⟨h, -⟩ | ⟨h, -⟩ | ⟨h, -⟩ | h
    · simp [h]
    · simp [h]
    · simp [h]
    · revert h
      cases Tag.ofWord s <;> simp
  unfold Tag.ofContent
  dsimp only
  generalize (if s.getLast? = some '\n' then s.dropLast else s) = word
  split_ifs
  · simp
  · simp
  · exact hword word

/-! ## Trees without tags -/

/-- The tag of a node is that of its kind, of its content, or that of a text. -/
def Mark.IsUntagged : Mark → Prop
  | .scalar tag text => tag = .str ∨ tag = .ofContent text.toList
  | .sequenceStart tag => tag = .seq
  | .mappingStart tag => tag = .map
  | _ => True

namespace Tree

/-- No node has a tag of its own. -/
def Untagged (t : Tree) : Prop := ∀ m ∈ t.outline, m.IsUntagged

/-- A scalar without a tag is a text, or what its content says. -/
lemma Untagged.scalar {tag : Tag} {text : String} (h : Untagged (.scalar tag text)) :
    tag = .str ∨ tag = .ofContent text.toList :=
  h _ (List.mem_singleton_self _)

/-- A sequence without a tag is a list. -/
lemma Untagged.sequence {tag : Tag} {items : List Tree} (h : Untagged (.sequence tag items)) :
    tag = .seq :=
  h (.sequenceStart tag) (by simp [outline])

/-- A mapping without a tag is a map. -/
lemma Untagged.mapping {tag : Tag} {pairs : List (Tree × Tree)}
    (h : Untagged (.mapping tag pairs)) : tag = .map :=
  h (.mappingStart tag) (by simp [outline])

/-- The parts of a tree without tags have none. -/
private lemma passes_untagged : Passes Untagged where
  item h t ht m hm := h m (by
    rw [outline]
    exact List.mem_cons_of_mem _ (List.mem_append_left _ (mem_outlineList ht hm)))
  pairs h p hp := by
    have hmem {m : Mark} (hm : m ∈ p.1.outline ∨ m ∈ p.2.outline) : m.IsUntagged := h m (by
      rw [outline]
      exact List.mem_cons_of_mem _ (List.mem_append_left _ (mem_outlinePairs hp hm)))
    exact ⟨fun m hm => hmem (.inl hm), fun m hm => hmem (.inr hm)⟩
  asKey {t} h := by
    unfold Tree.asKey
    split
    · intro m hm
      obtain rfl := List.mem_singleton.1 hm
      exact .inl rfl
    · exact absurd h.mapping (by decide)
    · exact h

mutual

/-- The document of a tree without tags. -/
inductive LoadsAs : Tree → Node → Prop
  | scalar {tag : Tag} {text : String} {value : Scalar} (hread : readScalar tag text = .ok value) :
    LoadsAs (.scalar tag text) (.scalar value)
  | sequence {items : List Tree} {nodes : List Node} (hitems : ItemsLoadAs items nodes) :
    LoadsAs (.sequence .seq items) (.list nodes)
  /-- A map with those that are merged into it; of equal keys the last value counts. -/
  | mapping {pairs flat : List (Tree × Tree)} {entries : Entries} (hflat : flatten pairs = .ok flat)
    (hpairs : PairsLoadAs flat entries) :
    LoadsAs (.mapping .map pairs) (.map (Entries.ofList entries))

/-- The documents of the items of a sequence. -/
inductive ItemsLoadAs : List Tree → List Node → Prop
  | nil : ItemsLoadAs [] []
  | cons {t : Tree} {ts : List Tree} {node : Node} {nodes : List Node} (hitem : LoadsAs t node)
    (hitems : ItemsLoadAs ts nodes) : ItemsLoadAs (t :: ts) (node :: nodes)

/-- The entries of pairs, of which the keys are scalars. -/
inductive PairsLoadAs : List (Tree × Tree) → Entries → Prop
  | nil : PairsLoadAs [] []
  | cons {tag : Tag} {text : String} {key : Scalar} {t : Tree} {node : Node}
    {pairs : List (Tree × Tree)} {entries : Entries} (hkey : readScalar tag text = .ok key)
    (hvalue : LoadsAs t node) (hpairs : PairsLoadAs pairs entries) :
    PairsLoadAs ((.scalar tag text, t) :: pairs) ((key, node) :: entries)

end

/-! ## Documents -/

/-- The value of a node that is no collection is plain, and the node is a scalar. -/
private lemma exists_scalar_of_toScalar {t : Tree} (ht : Untagged t)
    (hnot : ¬ t.tag.isCollection = true) {value : Scalar} (h : t.toScalar = .ok value) :
    ∃ tag text, t = .scalar tag text ∧ readScalar tag text = .ok value ∧ value.IsPlain := by
  cases t with
  | scalar tag text =>
    have hread : readScalar tag text = .ok value := h
    have htag : tag ∉ [.binary, .timestamp] := by
      rcases ht.scalar with rfl | rfl
      · decide
      · exact ofContent_not_mem _
    have hplain := ensures_readScalar htag text
    rw [hread] at hplain
    exact ⟨tag, text, rfl, hread, hplain⟩
  | sequence tag items =>
    obtain rfl := ht.sequence
    exact absurd rfl hnot
  | mapping tag pairs =>
    obtain rfl := ht.mapping
    exact absurd rfl hnot

section Fill

variable {n : Nat}
  (hfill : ∀ {t : Tree} {d : Node}, Untagged t → fill n t = .ok d → t.LoadsAs d ∧ d.IsPlain)
include hfill

/-- A part of a collection is loaded, if the collections in it are. -/
private lemma loadsAs_of_part {t : Tree} (ht : Untagged t) {d : Node}
    (h : part (fill n) t = .ok d) :
    t.LoadsAs d ∧ d.IsPlain := by
  unfold part at h
  split_ifs at h with hcollection
  · exact hfill ht (Round.later_eq_ok.1 h)
  · obtain ⟨value, hvalue, rfl⟩ := Except.map_eq_ok.1
      (show Node.scalar <$> Round.now t.toScalar = .ok d from h)
    obtain ⟨tag, text, rfl, hread, hplain⟩ :=
      exists_scalar_of_toScalar ht hcollection (Round.now_eq_ok.1 hvalue)
    exact ⟨.scalar hread, .scalar hplain⟩

/-- The items of a sequence are loaded, if the collections in it are. -/
private lemma itemsLoadAs_of_parts {items : List Tree} (hitems : ∀ t ∈ items, Untagged t)
    {nodes : List Node} (h : items.map (part (fill n)) = nodes.map .ok) :
    ItemsLoadAs items nodes ∧ ∀ d ∈ nodes, d.IsPlain := by
  induction items generalizing nodes with
  | nil =>
    obtain rfl := List.map_eq_nil_iff.1 h.symm
    exact ⟨.nil, nofun⟩
  | cons t items ih =>
    obtain ⟨d, nodes, rfl, hd, hnodes⟩ := List.map_eq_cons_iff.1 h.symm
    obtain ⟨ht, hitems⟩ := List.forall_mem_cons.1 hitems
    obtain ⟨hload, hplain⟩ := loadsAs_of_part hfill ht hd.symm
    obtain ⟨hloads, hplains⟩ := ih hitems hnodes.symm
    exact ⟨.cons hload hloads, List.forall_mem_cons.2 ⟨hplain, hplains⟩⟩

/-- The pairs of a mapping are loaded, if the collections in it are. -/
private lemma pairsLoadAs_of_parts {pairs : List (Tree × Tree)} (hpairs : EachPair Untagged pairs)
    {entries : Entries}
    (h : pairs.map (fun (k, v) => (Round.now (toKey k)).both (part (fill n) v)) =
      entries.map .ok) :
    PairsLoadAs pairs entries ∧ ∀ e ∈ entries, e.1.IsPlain ∧ e.2.IsPlain := by
  induction pairs generalizing entries with
  | nil =>
    obtain rfl := List.map_eq_nil_iff.1 h.symm
    exact ⟨.nil, nofun⟩
  | cons p pairs ih =>
    obtain ⟨e, entries, rfl, he, hentries⟩ := List.map_eq_cons_iff.1 h.symm
    obtain ⟨⟨hk, hv⟩, hpairs⟩ := List.forall_mem_cons.1 hpairs
    obtain ⟨hkey, hvalue⟩ := Round.both_eq_ok.1 he.symm
    obtain ⟨hload, hplain⟩ := loadsAs_of_part hfill hv hvalue
    obtain ⟨hloads, hplains⟩ := ih hpairs hentries.symm
    obtain ⟨k, v⟩ := p
    have hkey := Round.now_eq_ok.1 hkey
    unfold toKey at hkey
    split_ifs at hkey with hcollection
    obtain ⟨tag, text, rfl, hread, hkeyPlain⟩ := exists_scalar_of_toScalar hk hcollection hkey
    exact ⟨.cons hread hload hloads, List.forall_mem_cons.2 ⟨⟨hkeyPlain, hplain⟩, hplains⟩⟩

end Fill

/-- **The document of a tree without tags is plain**, and made of the values of its scalars. -/
theorem loadsAs_of_fill (n : Nat) {t : Tree} (ht : Untagged t) {d : Node} (h : fill n t = .ok d) :
    t.LoadsAs d ∧ d.IsPlain := by
  -- By induction on the levels: the parts of a collection are loaded on the level below.
  induction n generalizing t d with
  | zero => cases h
  | succ n ih =>
    cases t with
    | scalar tag text => cases h
    | sequence tag items =>
      obtain rfl := ht.sequence
      obtain ⟨nodes, hall, rfl⟩ := Except.map_eq_ok.1
        (show Node.list <$> Round.all (items.map (part (fill n))) = .ok d from h)
      obtain ⟨hloads, hplain⟩ := itemsLoadAs_of_parts (fun ht h => ih ht h)
        (passes_untagged.item ht) (Round.all_eq_ok.1 hall)
      exact ⟨.sequence hloads, .list hplain⟩
    | mapping tag pairs =>
      obtain rfl := ht.mapping
      obtain ⟨es, hentries, rfl⟩ := Except.map_eq_ok.1
        (show Node.map <$> entries (fill n) pairs = .ok d from h)
      obtain ⟨flat, hflat, hentries⟩ := Except.bind_eq_ok.1 hentries
      obtain ⟨es', hall, hes⟩ := Except.bind_eq_ok.1 hentries
      obtain rfl := Except.ok.inj hes
      have hflat := Round.now_eq_ok.1 hflat
      have huntagged : EachPair Untagged flat := by
        have hpairs := ensures_flatten passes_untagged (passes_untagged.pairs ht)
        rwa [hflat] at hpairs
      obtain ⟨hloads, hplain⟩ := pairsLoadAs_of_parts (fun ht h => ih ht h) huntagged
        (Round.all_eq_ok.1 hall)
      have hmap := Entries.forall_ofList hplain
      exact ⟨.mapping hflat hloads, .map (fun e he => (hmap e he).1) fun e he => (hmap e he).2⟩

end Tree

/-! ## Texts -/

/-- The document that is loaded from the nodes of events; without a node it is null. -/
inductive EventsLoadAs (events : List Event) : Node → Prop
  | empty (hempty : events.filterMap Event.mark? = []) : EventsLoadAs events .null
  | root {t : Tree} {d : Node} (houtline : t.outline = events.filterMap Event.mark?)
    (hroot : t.LoadsAs d) : EventsLoadAs events d

/-- A node that begins without a tag has none. -/
private lemma isUntagged_of_mark? {e : Event}
    (htag : ∀ props, e.properties? = some props → props.tag = none) {m : Mark}
    (h : e.mark? = some m) : m.IsUntagged := by
  cases e with
  | sequenceStart props | mappingStart props =>
    cases h
    simp only [Mark.IsUntagged, Tree.Progress.collectionTag, htag props rfl]
  | scalar props byContent text =>
    cases h
    simp only [Mark.IsUntagged, Tree.Progress.scalarTag, htag props rfl]
    cases byContent
    · exact .inl rfl
    · exact .inr rfl
  | _ => cases h <;> trivial

/-- The nodes of a text without tags have none. -/
private lemma tag_eq_none_of_mem_events {lexemes : Feed Lexeme} (htags : ¬ HasTag lexemes.items)
    {e : Event} (h : e ∈ (events lexemes).items) {props : Properties}
    (hprops : e.properties? = some props) :
    props.tag = none := by
  have htagged := (Machine.taggedIn_of_mem_run (Machine.Behind.refl _) h).resolve_left
    List.not_mem_nil
  cases htag : props.tag with
  | none => rfl
  | some name => exact absurd (htagged props hprops (by rw [htag]; rfl)) htags

/-- Without a document the end of the stream is read. -/
private lemma Tree.Progress.Run.exists_streamEnd {p : Progress} {read : List Event}
    (h : Run p read (.closed none)) (hp : p ≠ .closed none) :
    ∃ before, read = before ++ [.streamEnd] := by
  generalize hq : Progress.closed none = q at h
  cases h with
  | nil => exact absurd hq.symm hp
  | concat _ hstep =>
    have hattach {t : Tree} {stack : List Open} {anchors : List String} :
        Progress.closed none ≠ attach t stack anchors := by
      unfold attach
      split <;> exact nofun
    cases hstep with
    | noDocument => exact ⟨_, rfl⟩
    | documentStart | sequenceStart | mappingStart | documentEnd => cases hq
    | scalar | sequenceEnd | mappingEnd => exact absurd hq hattach

/-- The tree of events has the nodes of all of them. -/
private lemma outline_of_ofEvents {lexemes : Feed Lexeme} {result : Option Tree}
    (h : Tree.ofEvents (events lexemes) = .ok result) :
    (events lexemes).items.filterMap Event.mark? = (result.map Tree.outline).getD [] := by
  obtain ⟨read, rest, hitems, hrun, hrest⟩ := Tree.exists_run_of_compose h
  rw [show (result.map Tree.outline).getD [] = read.filterMap Event.mark? from
    hrun.tracks.outline, hitems, List.filterMap_append]
  -- At most the end of the stream is left, since there is nothing behind it.
  have hend {before after : List Event} : (events lexemes).items = before ++ .streamEnd :: after →
      after = [] :=
    Machine.eq_nil_of_run List.not_mem_nil
  cases result with
  | some root =>
    obtain ⟨others, rfl⟩ := hrest rfl
    obtain rfl := hend hitems
    exact List.append_nil _
  | none =>
    obtain ⟨before, rfl⟩ := hrun.exists_streamEnd nofun
    obtain rfl := hend (hitems.trans (List.append_cons before _ rest).symm)
    exact List.append_nil _

/-- What is loaded from events without tags. -/
private lemma eventsLoadAs_of_load {text : List Char} (htags : ¬ HasTag (tokens text).items)
    {d : Node} (h : load text = .ok d) :
    EventsLoadAs (events (tokens text)).items d ∧ d.IsPlain := by
  unfold load at h
  split_ifs at h
  obtain ⟨result, hcomposed, h⟩ := Except.bind_eq_ok.1 h
  have houtline := outline_of_ofEvents hcomposed
  cases result with
  | none =>
    obtain rfl := Except.ok.inj h
    exact ⟨.empty houtline, .scalar trivial⟩
  | some root =>
    have huntagged : root.Untagged := by
      intro m hm
      have hmem : m ∈ (events (tokens text)).items.filterMap Event.mark? := houtline ▸ hm
      obtain ⟨e, he, hmark⟩ := List.mem_filterMap.1 hmem
      exact isUntagged_of_mark? (fun _ hprops => tag_eq_none_of_mem_events htags he hprops) hmark
    have hpart := Except.mapError_eq_ok.1 (show (Tree.part (Tree.fill maxNesting) root).mapError
      (·.2) = .ok d from h)
    obtain ⟨hloads, hplain⟩ :=
      Tree.loadsAs_of_part (fun ht h => Tree.loadsAs_of_fill maxNesting ht h) huntagged hpart
    exact ⟨.root houtline.symm hloads, hplain⟩

/-- A content in the form of a date is a text. -/
private lemma readScalar_of_isTimestamp {props : Properties} (htag : props.tag = none)
    {text : String} (h : IsTimestamp text.toList) :
    readScalar (Tree.Progress.scalarTag props true text) text = .ok (.str text) := by
  obtain ⟨year, rest, hyear, htext⟩ := h.exists_year
  have hstr : Tree.Progress.scalarTag props true text = .str := by
    rw [Tree.Progress.scalarTag, htag, htext]
    exact ofContent_eq_str hyear rest
  rw [hstr]
  rfl

end Yaml

/-- **A text without tags is loaded as a plain document.** It consists of maps, lists, and scalars
that are null, truth values, numbers and texts. Each node of the text is there with its value, but
for maps that are merged into others and for keys that are there again; and the value of a scalar
without quotes in the form of a date, as an item, as a key or as the value of one, is its own text.

**Proof sketch.** The tag of a node comes from a token, so that without tags each collection has
that of its kind and each scalar that of a text or of its content. All parts of a tree have such
tags then, the merged pairs included. Only tags of bytes and of dates have values that are not
plain, and no content calls for them; a content that begins with a year and a hyphen has no form of
an integer or of a floating point number, and is no word with a meaning of its own. -/
theorem load_untagged {text : String} {path : Option String} {d : Node}
    (hload : load text path = .ok d)
    (htags : ¬ Yaml.HasTag (Yaml.tokens text.toList).items) :
    d.IsPlain ∧ Yaml.EventsLoadAs (Yaml.events (Yaml.tokens text.toList)).items d ∧
      ∀ props content, .scalar props true content ∈ (Yaml.events (Yaml.tokens text.toList)).items →
        Yaml.IsTimestamp content.toList →
        Yaml.readScalar (Yaml.Tree.Progress.scalarTag props true content) content =
          .ok (.str content) := by
  obtain ⟨hevents, hplain⟩ := Yaml.eventsLoadAs_of_load htags (Except.mapError_eq_ok.1 hload)
  exact ⟨hplain, hevents, fun props content hmem htimestamp =>
    Yaml.readScalar_of_isTimestamp (Yaml.tag_eq_none_of_mem_events htags hmem rfl) htimestamp⟩

/-- A date as a key, and a time with a fraction of a second and its place as the value. -/
theorem dates_load_untagged :
    let text := "2020-01-01: 2020-1-2 3:04:05.6 +7"
    let d := Node.map [(.str "2020-01-01", .scalar (.str "2020-1-2 3:04:05.6 +7"))]
    load text none = .ok d ∧ ¬ Yaml.HasTag (Yaml.tokens text.toList).items ∧ d.IsPlain ∧
      Yaml.readScalar (.ofContent "2020-1-2 3:04:05.6 +7".toList) "2020-1-2 3:04:05.6 +7" =
        .ok (.str "2020-1-2 3:04:05.6 +7") := by
  intro text d
  have hload : load text none = .ok d := by decide +kernel
  have htags : ¬ Yaml.HasTag (Yaml.tokens text.toList).items := by decide +kernel
  have hmem : Yaml.Event.scalar ⟨none, none, ⟨12, 0, 12⟩⟩ true "2020-1-2 3:04:05.6 +7" ∈
      (Yaml.events (Yaml.tokens text.toList)).items := by decide +kernel
  have hyear : Yaml.IsNumber 4 4 ['2', '0', '2', '0'] := by decide
  have hmonth : Yaml.IsNumber 1 2 ['1'] := by decide
  have hday : Yaml.IsNumber 1 2 ['2'] := by decide
  have hblank : [' '].all Yaml.isSpaceOrTab := by decide
  have hhour : Yaml.IsNumber 1 2 ['3'] := by decide
  have hminute : Yaml.IsNumber 2 2 ['0', '4'] := by decide
  have hsecond : Yaml.IsNumber 2 2 ['0', '5'] := by decide
  have hfraction : Yaml.IsFraction ['.', '6'] := .digits (by decide)
  have hzone : Yaml.IsZone ['+', '7'] := .hours (.inl rfl) (by decide)
  have htimestamp : Yaml.IsTimestamp "2020-1-2 3:04:05.6 +7".toList :=
    .time hyear hmonth hday (.blanks (by decide) hblank) hhour hminute hsecond hfraction
      (.inr ⟨hblank, hzone⟩)
  obtain ⟨hplain, -, hdates⟩ := load_untagged hload htags
  exact ⟨hload, htags, hplain, hdates _ _ hmem htimestamp⟩

end CwlDescriptor
