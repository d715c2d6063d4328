/-
Module: SlotEvidence.Proofs.Json.RoundTrip
Purpose: The canonical text of a JSON value is read back as the value with the members of its
  objects in the order of their names.  The machine that reads goes from the state before a value to
  the one after it, whatever containers are open and whatever follows.
Trusted boundary: none
Main exports: Json.sorted, Json.Legible, Json.Legible.readBack, Json.parse_render
-/
import SlotEvidence.Json.Reader
import SlotEvidence.Proofs.Json.Integers
import SlotEvidence.Proofs.Json.Token

namespace SlotEvidence

namespace Json

/-! ### Canonical order

Members are written in the order of their names, so that what is read back is the value in canonical
order. -/

mutual

/-- The value with the members of all its objects in the order of their names. -/
def sorted : Json → Json
  | .array items => .array (sortedItems items)
  | .object members => .object (sortMembers (sortedMembers members))
  | value => value

def sortedItems : List Json → List Json
  | [] => []
  | item :: rest => item.sorted :: sortedItems rest

def sortedMembers : List (String × Json) → List (String × Json)
  | [] => []
  | (name, value) :: rest => (name, value.sorted) :: sortedMembers rest

end

theorem sortedItems_eq_map (items : List Json) : sortedItems items = items.map sorted := by
  induction items with
  | nil => rfl
  | cons item rest ih => rw [sortedItems, ih, List.map_cons]

theorem sortedMembers_eq_map (members : List (String × Json)) :
    sortedMembers members = members.map (Prod.map id sorted) := by
  induction members with
  | nil => rfl
  | cons member rest ih => rw [sortedMembers, ih, List.map_cons, Prod.map, id]

theorem renderItems_eq_map (items : List Json) : renderItems items = items.map render := by
  induction items with
  | nil => rfl
  | cons item rest ih => rw [renderItems, ih, List.map_cons]

theorem renderMembers_eq_map (members : List (String × Json)) :
    renderMembers members = members.map (Prod.map id render) := by
  induction members with
  | nil => rfl
  | cons member rest ih => rw [renderMembers, ih, List.map_cons, Prod.map, id]

/-- Sorting looks at the names only. -/
theorem sortMembers_map {α β : Type} (f : α → β) (members : List (String × α)) :
    sortMembers (members.map (Prod.map id f)) = (sortMembers members).map (Prod.map id f) := by
  rw [sortMembers, sortMembers, List.map_mergeSort]
  intro a _ b _
  rfl

theorem sortMembers_perm {α : Type} (members : List (String × α)) :
    (sortMembers members).Perm members :=
  List.mergeSort_perm _ _

/-! ### The machine

The reader stands between tokens and waits for a value, for an item or for a member.  Each of these
states is left with the value in the frame below, whatever text follows. -/

/-- The machine after the tokens of a text. -/
def run (r : Reader) (position : Nat) (chars : List Char) : Except Misplaced Reader :=
  (tokens position chars).foldlM Reader.next r

theorem run_nil (r : Reader) (position : Nat) : run r position [] = .ok r := by
  rw [run, tokens]
  rfl

/-- The reader takes the tokens one at a time. -/
theorem run_cons {r r' : Reader} {position next : Nat} {chars rest : List Char} {t : Located}
    (htokens : tokens position chars = t :: tokens next rest) (hnext : r.next t = .ok r') :
    run r position chars = run r' next rest := by
  rw [run, htokens, List.foldlM_cons, hnext]
  rfl

/-- The machine waits for a value that will stand on top of a stack. -/
def Reader.Awaits (r : Reader) (stack : List Frame) : Prop :=
  ∀ {token : Token} {position : Nat}, token ≠ .rightBracket →
    r.next ⟨token, position⟩ = takeValue stack ⟨token, position⟩

theorem awaits_beforeValue (stack : List Frame) : (Reader.beforeValue stack).Awaits stack := by
  intro token position _
  rfl

theorem awaits_beforeItem (stack : List Frame) :
    (Reader.beforeItem stack).Awaits (.items [] :: stack) := by
  intro token position h
  cases token with
  | rightBracket => exact absurd rfl h
  | _ => rfl

/-- The canonical text of a value takes the machine from before the value to after it, whatever is
open and whatever follows. -/
def ReadBack (value : Json) : Prop :=
  ∀ (r : Reader) (stack : List Frame) (position : Nat) (rest : List Char),
    r.Awaits stack → Delimited rest →
      run r position (value.render ++ rest) =
        run (.afterValue value.sorted stack) (position + value.render.length) rest

/-- A scalar is read back if its text is the one token that stands for it. -/
theorem readBack_of_readsAs {value : Json} (hsorted : value.sorted = value)
    (h : ReadsAs value value.render) : value.ReadBack := by
  intro r stack position rest hawaits hrest
  rw [hsorted]
  apply run_cons (h hrest)
  exact hawaits (by simp)

theorem readBack_text (s : String) : (Json.text s).ReadBack := by
  intro r stack position rest hawaits hrest
  apply run_cons (tokens_text s position rest)
  exact hawaits (by simp)

theorem commaSeparated_cons (part : List Char) (parts : List (List Char)) :
    commaSeparated (part :: parts) = part ++ parts.flatMap (',' :: ·) := by
  induction parts generalizing part with
  | nil => simp [commaSeparated]
  | cons next parts ih =>
      rw [commaSeparated, ih, List.flatMap_cons, List.cons_append]
      exact List.cons_ne_nil _ _

theorem delimited_cons {c : Char} (h : c = ',' ∨ c = ']' ∨ c = '\x7d') (rest : List Char) :
    Delimited (c :: rest) := by
  intro d hd
  cases hd
  exact h

/-- The parts after the first one are introduced by commas, and a bracket follows the last one. -/
theorem delimited_parts {close : Char} (hclose : close = ']' ∨ close = '\x7d')
    (parts : List (List Char)) (rest : List Char) :
    Delimited (parts.flatMap (',' :: ·) ++ close :: rest) := by
  cases parts with
  | nil => exact delimited_cons (.inr hclose) rest
  | cons part parts => exact delimited_cons (.inl rfl) _

/-- Reading goes on after the first items of an array. -/
theorem run_items {items : List Json} (h : ∀ item ∈ items, item.ReadBack) (done : List Json)
    (value : Json) (stack : List Frame) (position : Nat) (rest : List Char) :
    run (.afterValue value (.items done :: stack)) position
        ((items.map render).flatMap (',' :: ·) ++ ']' :: rest) =
      run (.afterValue (.array ((value :: done).reverse ++ items.map sorted)) stack)
        (position + ((items.map render).flatMap (',' :: ·)).length + 1) rest := by
  induction items generalizing done value position with
  | nil =>
      rw [List.map_nil, List.map_nil, List.append_nil]
      exact run_cons (tokens_mark rfl position rest) rfl
  | cons item items ih =>
      have hitem := h item List.mem_cons_self
      have hrest := ih (fun other hother => h other (List.mem_cons_of_mem _ hother))
      rw [List.map_cons, List.flatMap_cons, List.append_assoc, List.cons_append,
        run_cons (tokens_mark rfl position _) rfl,
        hitem _ _ _ _ (awaits_beforeValue _) (delimited_parts (.inl rfl) _ _), hrest]
      have hlength : position + 1 + item.render.length +
          ((items.map render).flatMap (',' :: ·)).length + 1 =
            position + (',' :: item.render ++
              (items.map render).flatMap (',' :: ·)).length + 1 := by
        simp only [List.length_append, List.length_cons]
        omega
      rw [hlength, List.reverse_cons, List.append_assoc]
      rfl

/-- An array is read back if its items are: each of them is put in front of those read before it. -/
theorem readBack_array {items : List Json} (h : ∀ item ∈ items, item.ReadBack) :
    (Json.array items).ReadBack := by
  intro r stack position rest hawaits hrest
  have hopen : Token.leftBracket ≠ .rightBracket := by simp
  rw [render, renderItems_eq_map, sorted, sortedItems_eq_map]
  rw [List.cons_append, List.cons_append, List.append_assoc,
    run_cons (tokens_mark rfl position _) (hawaits hopen)]
  cases items with
  | nil => exact run_cons (tokens_mark rfl _ rest) rfl
  | cons item items =>
      have hitem := h item List.mem_cons_self
      have hitems := run_items (fun other hother => h other (List.mem_cons_of_mem _ hother))
      rw [List.map_cons, commaSeparated_cons, List.append_assoc, List.singleton_append,
        hitem _ _ _ _ (awaits_beforeItem _) (delimited_parts (.inl rfl) _ _), hitems]
      have hlength : position + 1 + item.render.length +
          ((items.map render).flatMap (',' :: ·)).length + 1 =
            position + ('[' :: (item.render ++ (items.map render).flatMap (',' :: ·) ++
              [']'])).length := by
        simp only [List.length_append, List.length_cons, List.length_nil]
        omega
      rw [hlength]
      rfl

/-- The text of a member of an object. -/
def memberText (member : String × Json) : List Char :=
  renderText member.1 ++ ':' :: member.2.render

/-- The name of a member, the colon and its value take the machine to the state after the value. -/
theorem run_member {member : String × Json} (h : member.2.ReadBack) {r : Reader}
    {done : List (String × Json)} {stack : List Frame}
    (hname : ∀ {s : String} {position : Nat},
      r.next ⟨.text s, position⟩ = .ok (.beforeColon done s stack))
    (position : Nat) {rest : List Char} (hrest : Delimited rest) :
    run r position (memberText member ++ rest) =
      run (.afterValue member.2.sorted (.members done member.1 :: stack))
        (position + (memberText member).length) rest := by
  rw [memberText, List.append_assoc, List.cons_append,
    run_cons (tokens_text member.1 position _) hname, run_cons (tokens_mark rfl _ _) rfl,
    h _ _ _ _ (awaits_beforeValue _) hrest, List.length_append, List.length_cons]
  have hlength : position + (renderText member.1).length + 1 + member.2.render.length =
      position + ((renderText member.1).length + (member.2.render.length + 1)) := by
    omega
  rw [hlength]

/-- Reading goes on after the first members of an object. -/
theorem run_members {members : List (String × Json)} (h : ∀ member ∈ members, member.2.ReadBack)
    (done : List (String × Json)) (name : String) (value : Json) (stack : List Frame)
    (position : Nat) (rest : List Char) :
    run (.afterValue value (.members done name :: stack)) position
        ((members.map memberText).flatMap (',' :: ·) ++ '\x7d' :: rest) =
      run (.afterValue (.object (Members.ofList (((name, value) :: done).reverse ++
          members.map (Prod.map id sorted)))) stack)
        (position + ((members.map memberText).flatMap (',' :: ·)).length + 1) rest := by
  induction members generalizing done name value position with
  | nil =>
      rw [List.map_nil, List.map_nil, List.append_nil]
      exact run_cons (tokens_mark rfl position rest) rfl
  | cons member members ih =>
      have hmember := h member List.mem_cons_self
      have hrest := ih (fun other hother => h other (List.mem_cons_of_mem _ hother))
      rw [List.map_cons, List.flatMap_cons, List.append_assoc, List.cons_append,
        run_cons (tokens_mark rfl position _) rfl,
        run_member hmember rfl _ (delimited_parts (.inr rfl) _ _), hrest]
      have hlength : position + 1 + (memberText member).length +
          ((members.map memberText).flatMap (',' :: ·)).length + 1 =
            position + (',' :: memberText member ++
              (members.map memberText).flatMap (',' :: ·)).length + 1 := by
        simp only [List.length_append, List.length_cons]
        omega
      rw [hlength, List.reverse_cons, List.append_assoc]
      rfl

/-- An object is read back if its members are and no name comes twice. -/
theorem readBack_object {members : List (String × Json)} (hdistinct : (members.map (·.1)).Nodup)
    (h : ∀ member ∈ members, member.2.ReadBack) : (Json.object members).ReadBack := by
  intro r stack position rest hawaits hrest
  have hopen : Token.leftBrace ≠ .rightBracket := by simp
  have hperm := sortMembers_perm members
  have hnodup : (((sortMembers members).map (Prod.map id sorted)).map (·.1)).Nodup := by
    rw [List.map_map]
    exact (hperm.map _).nodup_iff.2 hdistinct
  have hread : ∀ member ∈ sortMembers members, member.2.ReadBack := fun member hmember =>
    h member (hperm.mem_iff.1 hmember)
  have hrender : (Json.object members).render =
      '\x7b' :: commaSeparated ((sortMembers members).map memberText) ++ ['\x7d'] := by
    rw [render, renderMembers_eq_map, sortMembers_map, List.map_map]
    rfl
  rw [hrender, sorted, sortedMembers_eq_map, sortMembers_map, List.cons_append, List.cons_append,
    List.append_assoc, run_cons (tokens_mark rfl position _) (hawaits hopen)]
  -- the names are distinct, so that no member overwrites one that was read before it
  cases hsort : sortMembers members with
  | nil => exact run_cons (tokens_mark rfl _ rest) rfl
  | cons member more =>
      rw [hsort] at hread hnodup
      have hmember := hread member List.mem_cons_self
      have hmembers := run_members (fun other hother => hread other (List.mem_cons_of_mem _ hother))
      rw [List.map_cons, commaSeparated_cons, List.append_assoc, List.singleton_append,
        run_member hmember rfl _ (delimited_parts (.inr rfl) _ _), hmembers, List.reverse_singleton,
        List.singleton_append]
      have hlength : position + 1 + (memberText member).length +
          ((more.map memberText).flatMap (',' :: ·)).length + 1 =
            position + ('\x7b' :: (memberText member ++ (more.map memberText).flatMap (',' :: ·) ++
              ['\x7d'])).length := by
        simp only [List.length_append, List.length_cons, List.length_nil]
        omega
      have hmembers : Members.ofList ((member.1, member.2.sorted) ::
          more.map (Prod.map id sorted)) = (member :: more).map (Prod.map id sorted) :=
        Members.ofList_of_nodup hnodup
      rw [hlength, hmembers]

/-- A value whose text can be read back, if its integers are not too long: the members of its
objects have distinct names, and each floating-point number in it is read back from its own text. -/
inductive Legible : Json → Prop where
  | null : Legible .null
  | bool (b : Bool) : Legible (.bool b)
  | int (n : Int) : Legible (.int n)
  | float {x : Binary64} (h : ReadsAs (.float x) (Json.float x).render) : Legible (.float x)
  | text (s : String) : Legible (.text s)
  | array {items : List Json} (h : ∀ item ∈ items, Legible item) : Legible (.array items)
  | object {members : List (String × Json)} (hdistinct : (members.map (·.1)).Nodup)
      (h : ∀ member ∈ members, Legible member.2) : Legible (.object members)

/-- Legible values are read back, by induction on the value. -/
theorem Legible.readBack {value : Json} (h : value.Legible) (hwritable : value.Writable) :
    value.ReadBack := by
  induction h with
  | null => exact readBack_of_readsAs rfl readsAs_null
  | bool b => exact readBack_of_readsAs rfl (readsAs_bool b)
  | int n => exact readBack_of_readsAs rfl (readsAs_int (writable_int_iff.1 hwritable))
  | float h => exact readBack_of_readsAs rfl h
  | text s => exact readBack_text s
  | array _ ih =>
      have hitems := writable_array_iff.1 hwritable
      exact readBack_array fun item hitem => ih item hitem (hitems item hitem)
  | object hdistinct _ ih =>
      have hmembers := writable_object_iff.1 hwritable
      exact readBack_object hdistinct fun member hmember =>
        ih member hmember (hmembers member hmember)

/-- No value begins with a byte order mark. -/
theorem ReadBack.head?_ne {value : Json} (h : value.ReadBack) :
    value.render.head? ≠ some '\ufeff' := by
  intro hhead
  have hrun := h _ _ 0 [] (awaits_beforeValue []) delimited_nil
  obtain ⟨more, hmore⟩ := List.head?_eq_some_iff.1 hhead
  have htokens : tokens 0 ('\ufeff' :: (more ++ [])) = [⟨.junk, 0⟩] := by
    rw [tokens.eq_def]
    simp [isBlank, mark?, readName?, names_eq, readNumber?, wholeDigits]
  rw [hmore, List.cons_append, run, htokens, run_nil] at hrun
  cases hrun

/-- The canonical text of a legible value is read as the value in canonical order. -/
theorem parse_render {value : Json} (h : value.Legible) (hwritable : value.Writable) :
    Json.parse (String.ofList value.render) = .ok value.sorted := by
  have hback := h.readBack hwritable
  have hrun := hback _ _ 0 [] (awaits_beforeValue []) delimited_nil
  rw [List.append_nil, run_nil] at hrun
  rw [Json.parse, String.toList_ofList]
  rw [if_neg hback.head?_ne, read]
  change ((run _ _ _ >>= _).mapError _) = _
  rw [hrun]
  rfl

end Json

end SlotEvidence
