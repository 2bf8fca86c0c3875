import ModTile.Bytes.Search
import ModTile.Protocol.Basic

/-!
# Compositing two stores

`store_ro_composite.c` reads a tile from each of two stores and draws one over the other.  The
connection string `composite:{a,s}{b,t}` has the names of two maps and the connection strings of
two stores.
-/

namespace StoreRoComposite

open Bytes (ofString cString splitFirst FirstAt)

/-! ### The connection string -/

/-- The text with which the connection string of a composite store starts. -/
def start : List UInt8 := ofString "composite:\x7b"

/-- What separates the two parts of the connection string. -/
def separator : List UInt8 := ofString "\x7d\x7b"

/-- `struct ro_composite_ctx`, without the cache, which is not used. -/
structure Ctx (σ : Type*) where
  storePrimary : σ
  xmlconfigPrimary : XmlconfigArray
  storeSecondary : σ
  xmlconfigSecondary : XmlconfigArray
  renderSize : ℕ

/-- How the initialisation ends without a store: with a message, or with an access outside of a
string or an array. -/
inductive InitStop where
  | failed (message : List UInt8)
  | outOfBounds

/-- The array with a name and a zero byte after it, if there is room for them. -/
def copyName (name : List UInt8) : Except InitStop XmlconfigArray :=
  if name.length < xmlconfigMax then
    .ok (Bytes.storeString name (.replicate _ 0))
  else .error .outOfBounds

/-- One half of the connection string: the name before the comma is copied, and the store after it
is opened.  Which half it is appears in the messages. -/
def initPart {σ : Type*} (initStorageBackend : List UInt8 → Option σ) (which : String)
    (connectionString : List UInt8) : Except InitStop (XmlconfigArray × σ) :=
  match splitFirst (ofString ",") connectionString with
  | none => .error (.failed (ofString ("init_storage_ro_composite: malformed " ++ which ++
      " connection string, missing ',' separator: ") ++ connectionString))
  | some (name, rest) =>
      match copyName name with
      | .error e => .error e
      | .ok xmlconfig =>
          match initStorageBackend rest with
          | none => .error (.failed (ofString ("init_storage_ro_composite: failed to initialise " ++
              which ++ " storage backend")))
          | some store => .ok (xmlconfig, store)

/-- The composite store for a connection string that starts with `start`.  The last byte of the
string after the separator is cut off, and there is none when this string is empty. -/
def initStorageRoComposite {σ : Type*} (initStorageBackend : List UInt8 → Option σ)
    (connectionString : List UInt8) : Except InitStop (Ctx σ) :=
  match splitFirst separator connectionString with
  | none => .error (.failed (ofString ("init_storage_ro_composite: malformed connection string, " ++
      "missing '\x7d\x7b' separator: ") ++ connectionString))
  | some (before, after) =>
      let connectionStringPrimary := before.drop start.length
      if after = [] then .error .outOfBounds
      else
        let connectionStringSecondary := after.dropLast
        match initPart initStorageBackend "primary" connectionStringPrimary with
        | .error e => .error e
        | .ok (xmlconfigPrimary, storePrimary) =>
            match initPart initStorageBackend "secondary" connectionStringSecondary with
            | .error e => .error e
            | .ok (xmlconfigSecondary, storeSecondary) =>
                .ok {
                  storePrimary := storePrimary, xmlconfigPrimary := xmlconfigPrimary
                  storeSecondary := storeSecondary, xmlconfigSecondary := xmlconfigSecondary
                  renderSize := 256 }

variable {σ : Type*} {init : List UInt8 → Option σ} {which : String}
  {cs a s b t rest : List UInt8}

/-- The name before the comma does not fit into its array. -/
def LongName (cs : List UInt8) : Prop :=
  ∃ a s, FirstAt (ofString ",") cs a s ∧ xmlconfigMax ≤ a.length

/-- The name before the comma fits into its array, and the store after the comma can be opened. -/
def Opens (init : List UInt8 → Option σ) (cs : List UInt8) : Prop :=
  ∃ a s, FirstAt (ofString ",") cs a s ∧ a.length < xmlconfigMax ∧ (init s).isSome

theorem ofString_comma :
  ofString "," = [44]
  := by decide

/-- A half of a connection string is that of a name and a store when the name has no comma and
fits into its array. -/
theorem initPart_append (ha : 44 ∉ a) (hlen : a.length < xmlconfigMax) :
  initPart init which (a ++ ofString "," ++ s) =
    match init s with
    | none => .error (.failed (ofString ("init_storage_ro_composite: failed to initialise " ++
        which ++ " storage backend")))
    | some store => .ok (Bytes.storeString a (.replicate _ 0), store)
  := by
  have hfirst : FirstAt (ofString ",") (a ++ ofString "," ++ s) a s := by
    rw [ofString_comma]
    apply Bytes.firstAt_singleton ha
  have hsplit := (Bytes.splitFirst_eq_some_iff (by decide)).mpr hfirst
  rw [initPart, hsplit]
  simp only [copyName, if_pos hlen]

/-- What a half of a connection string comes to. -/
theorem initPart_cases (init : List UInt8 → Option σ) (which : String) (cs : List UInt8) :
  initPart init which cs = .error .outOfBounds ∧ LongName cs ∧ ¬ Opens init cs ∨
    (∃ message, initPart init which cs = .error (.failed message)) ∧ ¬ LongName cs ∧
      ¬ Opens init cs ∨
    (∃ r, initPart init which cs = .ok r) ∧ ¬ LongName cs ∧ Opens init cs
  := by
  have hne : ofString "," ≠ [] := by decide
  cases hsplit : splitFirst (ofString ",") cs with
  | none =>
      right
      left
      refine ⟨?_, ?_, ?_⟩
      · rw [initPart, hsplit]
        exact ⟨_, rfl⟩
      · rintro ⟨a, s, h, -⟩
        apply Bytes.not_firstAt_of_splitFirst hne hsplit h
      · rintro ⟨a, s, h, -⟩
        apply Bytes.not_firstAt_of_splitFirst hne hsplit h
  | some r =>
      obtain ⟨a, s⟩ := r
      have hfirst := (Bytes.splitFirst_eq_some_iff hne).mp hsplit
      have hlong : LongName cs ↔ xmlconfigMax ≤ a.length := hfirst.exists_iff
      have hopens : Opens init cs ↔ a.length < xmlconfigMax ∧ (init s).isSome := hfirst.exists_iff
      rw [initPart, hsplit, hlong, hopens]
      dsimp only [copyName]
      by_cases hlen : a.length < xmlconfigMax
      · simp only [if_pos hlen, not_le.mpr hlen]
        cases init s with
        | none => simp
        | some store => simp [hlen]
      · simp [not_lt.mp hlen, hlen]

theorem splitFirst_start :
  splitFirst separator (start ++ rest) =
    (splitFirst separator rest).map fun (before, after) => (start ++ before, after)
  := Bytes.splitFirst_append_left (by decide)

/-- Accesses outside of strings and arrays are made exactly when there is nothing after the
separator, or a name is too long for its array. -/
theorem outOfBounds_iff :
  initStorageRoComposite init (start ++ rest) = .error .outOfBounds ↔
    ∃ p q, FirstAt separator rest p q ∧
      (q = [] ∨ LongName p ∨ Opens init p ∧ LongName q.dropLast)
  := by
  have hne : separator ≠ [] := by decide
  rw [initStorageRoComposite, splitFirst_start]
  cases hsplit : splitFirst separator rest with
  | none =>
      simp only [Option.map_none, Except.error.injEq, reduceCtorEq, false_iff]
      rintro ⟨p, q, h, -⟩
      apply Bytes.not_firstAt_of_splitFirst hne hsplit h
  | some r =>
      obtain ⟨p, q⟩ := r
      rw [((Bytes.splitFirst_eq_some_iff hne).mp hsplit).exists_iff]
      simp only [Option.map_some, List.drop_left]
      by_cases hq : q = []
      · simp [hq]
      · simp only [hq, false_or]
        rcases initPart_cases init "primary" p with ⟨hp, hlong, hopens⟩ | ⟨⟨m, hp⟩, hlong, hopens⟩ |
          ⟨⟨⟨x, st⟩, hp⟩, hlong, hopens⟩
        · simp [hp, hlong]
        · simp [hp, hlong, hopens]
        · simp only [hp, hlong, hopens, false_or, true_and]
          rcases initPart_cases init "secondary" q.dropLast with
            ⟨hs, hlong', hopens'⟩ | ⟨⟨m, hs⟩, hlong', hopens'⟩ | ⟨⟨⟨x', st'⟩, hs⟩, hlong', hopens'⟩
          · simp [hs, hlong']
          · simp [hs, hlong']
          · simp [hs, hlong']

/-- For every connection string that starts as that of a composite store: all accesses are inside
the strings and the arrays exactly when something follows the separator and the names that are
copied have at most 40 bytes.  The connection string of two names and two stores is taken
apart into them. -/
theorem connection_string_parsed (init : List UInt8 → Option σ) (rest : List UInt8) :
  (initStorageRoComposite init (start ++ rest) = .error .outOfBounds ↔
      ∃ p q, FirstAt separator rest p q ∧
        (q = [] ∨ LongName p ∨ Opens init p ∧ LongName q.dropLast)) ∧
    ∀ a s b t store store', 44 ∉ a → 44 ∉ b → 0 ∉ a → 0 ∉ b → a.length ≤ 40 → b.length ≤ 40 →
      rest = (a ++ ofString "," ++ s) ++ separator ++ (b ++ ofString "," ++ t ++ [125]) →
      (∀ p q, rest = p ++ separator ++ q → p = a ++ ofString "," ++ s) →
      init s = some store → init t = some store' →
      ∃ ctx, initStorageRoComposite init (start ++ rest) = .ok ctx ∧
        cString ctx.xmlconfigPrimary.toList = a ∧ ctx.storePrimary = store ∧
        cString ctx.xmlconfigSecondary.toList = b ∧ ctx.storeSecondary = store'
  := by
  use outOfBounds_iff
  intro a s b t store store' ha hb ha0 hb0 halen hblen hrest honly hs ht
  have hfirst : FirstAt separator rest (a ++ ofString "," ++ s)
      (b ++ ofString "," ++ t ++ [125]) := by
    constructor
    case eq => apply hrest
    case first =>
      intro p q h
      rw [honly p q h]
  have hsplit := (Bytes.splitFirst_eq_some_iff (by decide)).mpr hfirst
  have hmax : xmlconfigMax = 40 + 1 := rfl
  rw [initStorageRoComposite, splitFirst_start, hsplit]
  simp only [Option.map_some, List.drop_left]
  rw [if_neg (by simp), List.dropLast_concat, initPart_append ha (by omega), hs,
    initPart_append hb (by omega), ht]
  exact ⟨_, rfl, Bytes.cString_toList_storeString ha0 halen, rfl,
    Bytes.cString_toList_storeString hb0 hblen, rfl⟩

/-- The connection string `composite:{a,x}{b,y}` is taken apart into its names and stores. -/
theorem connection_string_parsed_letters :
  ∃ ctx, initStorageRoComposite some (start ++ ofString "a,x\x7d\x7bb,y\x7d") = .ok ctx ∧
    cString ctx.xmlconfigPrimary.toList = ofString "a" ∧ ctx.storePrimary = ofString "x" ∧
    cString ctx.xmlconfigSecondary.toList = ofString "b" ∧ ctx.storeSecondary = ofString "y"
  := by
  apply (connection_string_parsed some (ofString "a,x\x7d\x7bb,y\x7d")).2 (ofString "a")
    (ofString "x") (ofString "b") (ofString "y") (ofString "x") (ofString "y") (by decide)
    (by decide) (by decide) (by decide) (by decide) (by decide) (by decide) _ rfl rfl
  intro p q h
  have honly : ∀ k ≤ 9, separator <+: (ofString "a,x\x7d\x7bb,y\x7d").drop k →
      (ofString "a,x\x7d\x7bb,y\x7d").take k = ofString "a,x" := by
    decide
  have hlen : p.length ≤ 9 := by
    have := congrArg List.length h
    rw [List.length_append, List.length_append] at this
    apply (Nat.le_add_right _ _).trans ((Nat.le_add_right _ _).trans this.symm.le)
  rw [h, List.append_assoc] at honly
  have hp := honly p.length hlen
  rw [List.drop_left, List.take_left] at hp
  apply hp (List.prefix_append _ _)

/-- Nothing after the separator, and a name of 41 bytes. -/
theorem connection_string_outOfBounds :
  initStorageRoComposite some (start ++ ofString "a,x\x7d\x7b") = .error .outOfBounds ∧
    initStorageRoComposite some
      (start ++ List.replicate 41 97 ++ ofString ",x\x7d\x7bb,y\x7d") = .error .outOfBounds
  := by
  constructor
  · rfl
  · rfl

end StoreRoComposite
