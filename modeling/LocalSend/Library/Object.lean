import Mathlib.Data.List.DropRight
import Mathlib.Tactic.Common

/-! # Objects in braces

An object is a list of members between an opening and a closing symbol, with commas between
the members and blanks anywhere around them. The reader of such a text is a loop over the
members with a state that each member is stored in; it is correct when the reader of a
single member is.
-/

namespace LocalSend.Braced

variable {α ι σ : Type*}

/-- The punctuation; none of it is a blank. -/
structure Marks (α : Type*) where
  blank : α → Bool
  opening : α
  comma : α
  closing : α
  blank_opening : blank opening = false
  blank_comma : blank comma = false
  blank_closing : blank closing = false
  comma_ne_closing : comma ≠ closing

/-- Only blanks. -/
def Marks.Blank (marks : Marks α) (text : List α) : Prop :=
  ∀ symbol ∈ text, marks.blank symbol = true

/-- The text behind its blanks. -/
def Marks.skip (marks : Marks α) (text : List α) : List α := text.dropWhile marks.blank

/-- One member or more, a comma between each two. -/
inductive Members (marks : Marks α) (Member : ι → List α → Prop) : List ι → List α → Prop where
  | last {item text before after} (hbefore : marks.Blank before) (htext : Member item text)
      (hafter : marks.Blank after) : Members marks Member [item] (before ++ text ++ after)
  | more {item text before after items rest} (hbefore : marks.Blank before)
      (htext : Member item text) (hafter : marks.Blank after)
      (hrest : Members marks Member items rest) :
      Members marks Member (item :: items) (before ++ text ++ after ++ marks.comma :: rest)

/-- What stands between the brackets. -/
inductive Body (marks : Marks α) (Member : ι → List α → Prop) : List ι → List α → Prop where
  | empty {blanks} (hblanks : marks.Blank blanks) : Body marks Member [] blanks
  | members {items text} (htext : Members marks Member items text) : Body marks Member items text

/-- A whole object with the blanks around it. -/
inductive Object (marks : Marks α) (Member : ι → List α → Prop) : List ι → List α → Prop where
  | mk {items before body after} (hbefore : marks.Blank before)
      (hbody : Body marks Member items body) (hafter : marks.Blank after) :
      Object marks Member items
        (before ++ marks.opening :: body ++ marks.closing :: after)

variable {marks : Marks α} {Member : ι → List α → Prop} {store : σ → ι → Option σ}
  {member : σ → List α → Option (σ × List α)} {state next : σ} {text input rest : List α}
  {item : ι} {items : List ι}

/-! ## Blanks -/

theorem skip_blank {blanks : List α} (h : marks.Blank blanks) (text : List α) :
    marks.skip (blanks ++ text) = marks.skip text :=
  List.dropWhile_append_of_pos h

theorem skip_symbol {symbol : α} (h : marks.blank symbol = false) (text : List α) :
    marks.skip (symbol :: text) = symbol :: text := by
  simp [Marks.skip, h]

theorem skip_eq_nil (h : marks.Blank text) : marks.skip text = [] :=
  List.dropWhile_eq_nil_iff.mpr h

theorem blank_of_skip (h : marks.skip text = []) : marks.Blank text :=
  List.dropWhile_eq_nil_iff.mp h

/-- A text is its blanks and what is left of it behind them. -/
theorem skip_split (marks : Marks α) (text : List α) :
    ∃ blanks, marks.Blank blanks ∧ text = blanks ++ marks.skip text :=
  ⟨text.takeWhile marks.blank, fun _ hmem => List.mem_takeWhile_imp hmem,
    (List.takeWhile_append_dropWhile ..).symm⟩

/-- Nothing is left behind the blanks that is one. -/
theorem skip_skip (marks : Marks α) (text : List α) :
    marks.skip (marks.skip text) = marks.skip text := by
  induction text with
  | nil => rfl
  | cons symbol text ih =>
      cases hblank : marks.blank symbol with
      | false => rw [skip_symbol hblank, skip_symbol hblank]
      | true => simpa [Marks.skip, hblank] using ih

theorem members_blank {blanks : List α} (hblanks : marks.Blank blanks)
    (h : Members marks Member items text) : Members marks Member items (blanks ++ text) := by
  have hblank : ∀ {before : List α}, marks.Blank before → marks.Blank (blanks ++ before) := by
    intro before hbefore symbol hmem
    rcases List.mem_append.mp hmem with hmem | hmem
    · exact hblanks symbol hmem
    · exact hbefore symbol hmem
  cases h with
  | last hbefore htext hafter =>
      simpa using Members.last (hblank hbefore) htext hafter
  | more hbefore htext hafter hrest =>
      simpa using Members.more (hblank hbefore) htext hafter hrest

/-- A body that neither is over nor starts with the closing symbol has a member. -/
theorem body_members (h : Body marks Member items text)
    (hhead : (marks.skip (text ++ marks.closing :: rest)).head? ≠ some marks.closing) :
    Members marks Member items text := by
  cases h with
  | empty hblanks =>
      rw [skip_blank hblanks, skip_symbol marks.blank_closing] at hhead
      exact absurd rfl hhead
  | members htext => exact htext

/-! ## The reader of a member -/

/-- The text goes on with a blank, a comma or the closing symbol. -/
def Marks.Stops (marks : Marks α) (rest : List α) : Prop :=
  ∃ symbol ∈ rest.head?,
    marks.blank symbol = true ∨ symbol = marks.comma ∨ symbol = marks.closing

/-- `member` reads the members of a grammar and stores them. -/
structure Reads (marks : Marks α) (Member : ι → List α → Prop) (store : σ → ι → Option σ)
    (member : σ → List α → Option (σ × List α)) : Prop where
  sound : ∀ {state next input rest}, member state input = some (next, rest) →
    ∃ item text, Member item text ∧ input = text ++ rest ∧ store state item = some next
  complete : ∀ {state next item text rest}, Member item text → store state item = some next →
    marks.Stops rest → member state (text ++ rest) = some (next, rest)
  first : ∀ {item text}, Member item text → ∃ symbol after, text = symbol :: after ∧
    marks.blank symbol = false ∧ symbol ≠ marks.closing

theorem stops_blank {after : List α} (hafter : marks.Blank after) {symbol : α}
    (hsymbol : symbol = marks.comma ∨ symbol = marks.closing) (rest : List α) :
    marks.Stops (after ++ symbol :: rest) := by
  cases after with
  | nil => exact ⟨symbol, rfl, .inr hsymbol⟩
  | cons first after => exact ⟨first, rfl, .inl (hafter first (List.mem_cons_self ..))⟩

theorem members_first (h : Reads marks Member store member)
    (hmembers : Members marks Member items text) : ∃ symbol after,
      marks.skip (text ++ rest) = symbol :: after ∧ symbol ≠ marks.closing := by
  cases hmembers with
  | last hbefore htext hafter =>
      obtain ⟨symbol, after, rfl, hblank, hne⟩ := h.first htext
      simp only [List.append_assoc, List.cons_append]
      rw [skip_blank hbefore, skip_symbol hblank]
      exact ⟨symbol, _, rfl, hne⟩
  | more hbefore htext hafter hrest =>
      obtain ⟨symbol, after, rfl, hblank, hne⟩ := h.first htext
      simp only [List.append_assoc, List.cons_append]
      rw [skip_blank hbefore, skip_symbol hblank]
      exact ⟨symbol, _, rfl, hne⟩

/-! ## The loop -/

variable [DecidableEq α]

/-- Members up to the closing symbol, with one unit of fuel for each. -/
def readMembers (marks : Marks α) (member : σ → List α → Option (σ × List α)) :
    ℕ → σ → List α → Option (σ × List α)
  | 0, _, _ => none
  | fuel + 1, state, input =>
      if (marks.skip input).head? = some marks.closing then
        some (state, (marks.skip input).tail)
      else
        match member state (marks.skip input) with
        | none => none
        | some (state, rest) =>
            if (marks.skip rest).head? = some marks.comma then
              let rest := marks.skip (marks.skip rest).tail
              if rest = [] ∨ rest.head? = some marks.closing then none
              else readMembers marks member fuel state rest
            else if (marks.skip rest).head? = some marks.closing then
              some (state, (marks.skip rest).tail)
            else none

/-! ### What the loop accepts is an object -/

theorem readMembers_sound (h : Reads marks Member store member) {fuel : ℕ}
    (hread : readMembers marks member fuel state input = some (next, rest)) :
    ∃ items text, Body marks Member items text ∧ input = text ++ marks.closing :: rest ∧
      items.foldlM store state = some next := by
  induction fuel generalizing state input with
  | zero => cases hread
  | succ fuel ih =>
      obtain ⟨before, hbefore, hinput⟩ := skip_split marks input
      simp only [readMembers] at hread
      split at hread
      · rename_i hclosing
        obtain ⟨after, hafter⟩ := List.head?_eq_some_iff.mp hclosing
        rw [hafter, List.tail_cons] at hread
        cases hread
        exact ⟨[], before, .empty hbefore, by rw [hinput, hafter], rfl⟩
      split at hread
      · cases hread
      rename_i stored left hmember
      obtain ⟨item, text, htext, hsplit, hstore⟩ := h.sound hmember
      obtain ⟨after, hafter, hleft⟩ := skip_split marks left
      split at hread
      · rename_i hcomma
        obtain ⟨behind, hbehind⟩ := List.head?_eq_some_iff.mp hcomma
        rw [hbehind, List.tail_cons] at hread
        split at hread
        · cases hread
        rename_i hgoes
        obtain ⟨items, texts, hbody, htexts, hfold⟩ := ih hread
        obtain ⟨blanks, hblanks, hskip⟩ := skip_split marks behind
        have hhead : (marks.skip (texts ++ marks.closing :: rest)).head? ≠
            some marks.closing := by
          rw [← htexts, skip_skip]
          exact fun hclosing => hgoes (.inr hclosing)
        have hmembers := body_members hbody hhead
        refine ⟨item :: items, before ++ text ++ after ++ marks.comma :: (blanks ++ texts),
          .members (.more hbefore htext hafter (members_blank hblanks hmembers)), ?_, ?_⟩
        · rw [hinput, hsplit, hleft, hbehind, hskip, htexts]
          simp
        · simp [hstore, hfold]
      · split at hread
        · rename_i hclosing
          obtain ⟨behind, hbehind⟩ := List.head?_eq_some_iff.mp hclosing
          rw [hbehind, List.tail_cons] at hread
          cases hread
          refine ⟨[item], before ++ text ++ after, .members (.last hbefore htext hafter), ?_, ?_⟩
          · rw [hinput, hsplit, hleft, hbehind]
            simp
          · simp [hstore]
        · cases hread

/-! ### Every object is accepted -/

theorem readMembers_skip (fuel : ℕ) :
    readMembers marks member fuel state (marks.skip input) =
      readMembers marks member fuel state input := by
  cases fuel with
  | zero => rfl
  | succ fuel => simp only [readMembers, skip_skip]

/-- A member behind blanks is read first. -/
theorem readMembers_member (h : Reads marks Member store member) {fuel : ℕ} {before : List α}
    (hbefore : marks.Blank before) (htext : Member item text) (hstop : marks.Stops rest)
    (hstore : store state item = some next) :
    readMembers marks member (fuel + 1) state (before ++ text ++ rest) =
      if (marks.skip rest).head? = some marks.comma then
        let rest := marks.skip (marks.skip rest).tail
        if rest = [] ∨ rest.head? = some marks.closing then none
        else readMembers marks member fuel next rest
      else if (marks.skip rest).head? = some marks.closing then
        some (next, (marks.skip rest).tail)
      else none := by
  have hskip : marks.skip (before ++ text ++ rest) = text ++ rest := by
    obtain ⟨symbol, after, rfl, hblank, -⟩ := h.first htext
    rw [List.append_assoc, skip_blank hbefore, List.cons_append, skip_symbol hblank]
  have hhead : (text ++ rest).head? ≠ some marks.closing := by
    obtain ⟨symbol, after, rfl, -, hne⟩ := h.first htext
    simpa using hne
  rw [readMembers, hskip, if_neg hhead, h.complete htext hstore hstop]

theorem readMembers_members (h : Reads marks Member store member) {fuel : ℕ}
    (hmembers : Members marks Member items text) (hfold : items.foldlM store state = some next)
    (hfuel : text.length < fuel) (rest : List α) :
    readMembers marks member fuel state (text ++ marks.closing :: rest) = some (next, rest) := by
  induction hmembers generalizing state fuel with
  | @last item text before after hbefore htext hafter =>
      obtain ⟨fuel, rfl⟩ := Nat.exists_eq_succ_of_ne_zero (n := fuel) (by omega)
      have hstore : store state item = some next := by simpa using hfold
      have hstop := stops_blank hafter (.inr rfl) rest
      rw [List.append_assoc, readMembers_member h hbefore htext hstop hstore, skip_blank hafter,
        skip_symbol marks.blank_closing]
      simp [marks.comma_ne_closing.symm]
  | @more item text before after items texts hbefore htext hafter hrest ih =>
      obtain ⟨fuel, rfl⟩ := Nat.exists_eq_succ_of_ne_zero (n := fuel) (by omega)
      rw [List.foldlM_cons] at hfold
      obtain ⟨stored, hstore, hfold⟩ := Option.bind_eq_some_iff.mp hfold
      have hstop := stops_blank hafter (.inl rfl) (texts ++ marks.closing :: rest)
      have hfirst : ∃ symbol behind, marks.skip (texts ++ marks.closing :: rest) =
          symbol :: behind ∧ symbol ≠ marks.closing := members_first h hrest
      obtain ⟨symbol, behind, hskip, hne⟩ := hfirst
      have hlength : texts.length < fuel := by
        simp only [List.length_append, List.length_cons] at hfuel
        omega
      have hread := ih hfold hlength
      rw [← readMembers_skip, hskip] at hread
      rw [List.append_assoc (before ++ text ++ after), List.cons_append, List.append_assoc _ after,
        readMembers_member h hbefore htext hstop hstore, skip_blank hafter,
        skip_symbol marks.blank_comma]
      simp [hskip, hne, hread]

theorem readMembers_complete (h : Reads marks Member store member) {fuel : ℕ}
    (hbody : Body marks Member items text) (hfold : items.foldlM store state = some next)
    (hfuel : text.length < fuel) (rest : List α) :
    readMembers marks member fuel state (text ++ marks.closing :: rest) = some (next, rest) := by
  cases hbody with
  | empty hblanks =>
      obtain ⟨fuel, rfl⟩ := Nat.exists_eq_succ_of_ne_zero (n := fuel) (by omega)
      have hstate : state = next := by simpa using hfold
      rw [readMembers, skip_blank hblanks, skip_symbol marks.blank_closing]
      simp [hstate]
  | members hmembers => exact readMembers_members h hmembers hfold hfuel rest

/-! ## Whole objects -/

/-- The object a whole text is, with the blanks around it. -/
def readObject (marks : Marks α) (member : σ → List α → Option (σ × List α)) (state : σ)
    (text : List α) : Option σ :=
  if (marks.skip text).head? = some marks.opening then
    match readMembers marks member (marks.skip text).length state (marks.skip text).tail with
    | none => none
    | some (next, rest) => if marks.skip rest = [] then some next else none
  else none

theorem readObject_iff (h : Reads marks Member store member) :
    readObject marks member state text = some next ↔
      ∃ items, Object marks Member items text ∧ items.foldlM store state = some next := by
  constructor
  · intro hread
    obtain ⟨before, hbefore, htext⟩ := skip_split marks text
    rw [readObject] at hread
    split at hread
    · rename_i hopening
      obtain ⟨inner, hinner⟩ := List.head?_eq_some_iff.mp hopening
      rw [hinner, List.tail_cons] at hread
      split at hread
      · cases hread
      rename_i stored after hmembers
      split at hread
      · rename_i hafter
        cases hread
        obtain ⟨items, body, hbody, rfl, hfold⟩ := readMembers_sound h hmembers
        rw [hinner] at htext
        rw [htext]
        refine ⟨items, ?_, hfold⟩
        simpa using Object.mk hbefore hbody (blank_of_skip hafter)
      · cases hread
    · cases hread
  · rintro ⟨items, hobject, hfold⟩
    cases hobject with
    | @mk before body after hbefore hbody hafter =>
        have hskip : marks.skip (before ++ marks.opening :: body ++ marks.closing :: after) =
            marks.opening :: (body ++ marks.closing :: after) := by
          rw [List.append_assoc, skip_blank hbefore, List.cons_append,
            skip_symbol marks.blank_opening]
        have hlength : body.length <
            (marks.opening :: (body ++ marks.closing :: after)).length := by
          simp only [List.length_append, List.length_cons]
          omega
        have hread := readMembers_complete h hbody hfold hlength after
        rw [readObject, hskip, if_pos (List.head?_cons ..), List.tail_cons, hread]
        exact if_pos (skip_eq_nil hafter)

/-! ## Storing each member once -/

section Once

variable {κ : Type*} [DecidableEq κ] {key : ι → κ} {get : σ → κ → Option ι} {put : σ → ι → σ}
  {Allowed : ι → Prop}

/-- A state holds at most one member of a key; `store` fills an empty place. -/
structure Once (key : ι → κ) (get : σ → κ → Option ι) (put : σ → ι → σ) (Allowed : ι → Prop)
    (store : σ → ι → Option σ) : Prop where
  store_iff : ∀ {state next item}, store state item = some next ↔
    Allowed item ∧ get state (key item) = none ∧ next = put state item
  get_put : ∀ state item place,
    get (put state item) place = if place = key item then some item else get state place

theorem Once.foldlM_iff (h : Once key get put Allowed store) :
    items.foldlM store state = some next ↔
      (∀ item ∈ items, Allowed item ∧ get state (key item) = none) ∧ (items.map key).Nodup ∧
        next = items.foldl put state := by
  induction items generalizing state with
  | nil => simp [eq_comm]
  | cons item items ih =>
      have hplaces : (∀ other ∈ items, Allowed other ∧ get (put state item) (key other) = none) ↔
          (∀ other ∈ items, Allowed other ∧ get state (key other) = none) ∧
            key item ∉ items.map key := by
        simp only [h.get_put, List.mem_map, not_exists, not_and, ← forall_and]
        refine forall₂_congr fun other _ => ?_
        by_cases hkey : key other = key item
        · simp [hkey]
        · simp [hkey]
      have hbind : (item :: items).foldlM store state = some next ↔
          store state item = some (put state item) ∧
            items.foldlM store (put state item) = some next := by
        rw [List.foldlM_cons, Option.bind_eq_bind, Option.bind_eq_some_iff]
        constructor
        · rintro ⟨stored, hstore, hrest⟩
          obtain ⟨-, -, rfl⟩ := h.store_iff.mp hstore
          exact ⟨hstore, hrest⟩
        · rintro ⟨hstore, hrest⟩
          exact ⟨_, hstore, hrest⟩
      rw [hbind, ih, hplaces, h.store_iff, List.forall_mem_cons, List.map_cons, List.nodup_cons,
        List.foldl_cons]
      tauto

/-- The members that were put last are the ones found. -/
theorem Once.get_foldl (h : Once key get put Allowed store) (hkeys : (items.map key).Nodup)
    (place : κ) : get (items.foldl put state) place =
      (items.find? fun item => key item = place).or (get state place) := by
  induction items generalizing state with
  | nil => simp
  | cons item items ih =>
      rw [List.map_cons, List.nodup_cons] at hkeys
      rw [List.foldl_cons, ih hkeys.2, h.get_put]
      by_cases hplace : key item = place
      · subst hplace
        have hnone : items.find? (fun other => key other = key item) = none := by
          rw [List.find?_eq_none]
          intro other hmem hkey
          exact hkeys.1 (List.mem_map.mpr ⟨other, hmem, by simpa using hkey⟩)
        simp [hnone]
      · have hne : place ≠ key item := fun heq => hplace heq.symm
        simp [hplace, hne]

theorem find?_key (hkeys : (items.map key).Nodup) (hmem : item ∈ items) :
    items.find? (fun other => key other = key item) = some item := by
  induction items with
  | nil => simp at hmem
  | cons first items ih =>
      rw [List.map_cons, List.nodup_cons] at hkeys
      rcases List.mem_cons.mp hmem with rfl | hmem
      · simp
      · have hne : key first ≠ key item :=
          fun heq => hkeys.1 (List.mem_map.mpr ⟨item, hmem, heq.symm⟩)
        rw [List.find?_cons_of_neg (by simpa using hne)]
        exact ih hkeys.2 hmem

/-- From an empty state exactly the members of the list are held. -/
theorem Once.get_iff (h : Once key get put Allowed store)
    (hempty : ∀ place, get state place = none)
    (hfold : items.foldlM store state = some next) {place : κ} :
    get next place = some item ↔ item ∈ items ∧ key item = place := by
  obtain ⟨-, hkeys, rfl⟩ := h.foldlM_iff.mp hfold
  rw [h.get_foldl hkeys, hempty, Option.or_none]
  constructor
  · intro hfind
    exact ⟨List.mem_of_find?_eq_some hfind, by simpa using List.find?_some hfind⟩
  · rintro ⟨hmem, rfl⟩
    exact find?_key hkeys hmem

end Once

end LocalSend.Braced
