import Tethereum.Core.Rlp.Items

/-!
# Visiting the items of a list

The memo of a view moves from item to item over the whole buffer, so the items
that are counted are those which follow the list header one after another until
one does not parse. A `Layout` records that decomposition; counting finds
exactly one, and the visits that follow read its items.
-/

namespace Rlp

/-- A buffer is a list header followed by items and by a remainder. Only the first
item is looked for inside the announced payload. -/
structure Layout (raw : List UInt8) (info : PayloadInfo) (items : List (List UInt8))
    (rest : List UInt8) : Prop where
  /-- The buffer starts with a list header. -/
  isList : View.isList { bytes := raw } = true
  /-- The header's lengths, the announced payload being inside the buffer. -/
  header : payloadInfo raw = .ok info
  /-- Items follow the header one after another. -/
  body : raw.drop info.headerLen = items.flatten ++ rest
  /-- Every one of them is an item. -/
  isItem : ∀ item ∈ items, IsItem item
  /-- The first item ends inside the announced payload. -/
  first : ∀ item ∈ items.head?, item.length ≤ info.valueLen

/-- Nothing that parses is left in the remainder. -/
def Stops (rest : List UInt8) : Prop := ∀ found, payloadInfo rest ≠ .ok found

/-- The view of `raw` after a visit to item `k`. -/
def memo (raw : List UInt8) (info : PayloadInfo) (items : List (List UInt8)) (k : Nat) : View :=
  { bytes := raw, offsetCache := some ⟨k, info.headerLen + (items.take k).flatten.length⟩ }

/-- An exhausted buffer stops the count. -/
theorem stops_nil : Stops [] := by
  intro found h
  simp [payloadInfo, PayloadInfo.ofHeader] at h

/-- Skipping items consumes exactly their bytes. -/
theorem consumeItems_flatten {items : List (List UInt8)} (h : ∀ item ∈ items, IsItem item)
    (rest : List UInt8) :
    consumeItems (items.flatten ++ rest) items.length = .ok (rest, items.flatten.length) := by
  induction items with
  | nil => rfl
  | cons item items ih =>
    obtain ⟨info, hi, hl⟩ :=
      (h item (List.mem_cons_self ..)).payloadInfo_append (items.flatten ++ rest)
    have ih := ih fun a ha => h a (List.mem_cons_of_mem _ ha)
    simp only [List.flatten_cons, List.append_assoc, List.length_cons, consumeItems, bind,
      Except.bind, hi, hl, consume, List.length_append, Nat.le_add_right, ite_true,
      List.drop_left', ih, pure, Except.pure]

namespace Layout

variable {raw : List UInt8} {info : PayloadInfo} {items : List (List UInt8)} {rest : List UInt8}

/-- The buffer behind the first `k` items. -/
theorem drop_offset (h : Layout raw info items rest) (k : Nat) :
    raw.drop (info.headerLen + (items.take k).flatten.length) =
      (items.drop k).flatten ++ rest := by
  have hsplit : items.flatten = (items.take k).flatten ++ (items.drop k).flatten := by
    rw [← List.flatten_append, List.take_append_drop]
  rw [← List.drop_drop, h.body, hsplit, List.append_assoc, List.drop_left' rfl]

/-- The memo's offset stays inside the buffer. -/
theorem offset_le (h : Layout raw info items rest) (k : Nat) :
    info.headerLen + (items.take k).flatten.length ≤ raw.length := by
  have hb := congrArg List.length h.body
  have hh := (payloadInfo_eq_ok_iff.mp h.header).2
  have hk : (items.take k).flatten.length ≤ items.flatten.length :=
    (List.take_sublist k items).flatten.length_le
  simp only [List.length_drop, List.length_append] at hb
  simp only [PayloadInfo.total] at hh
  omega

/-- A visit to the item after the memo reads the header behind it. -/
theorem atIndex_next (h : Layout raw info items rest) {k : Nat} (hk : k < items.length) :
    (memo raw info items k).atIndex (k + 1) =
      match payloadInfo ((items.drop (k + 1)).flatten ++ rest) with
      | .error e => (.error e, memo raw info items (k + 1))
      | .ok found => (.ok { bytes := ((items.drop (k + 1)).flatten ++ rest).take found.total },
          memo raw info items (k + 1)) := by
  have hitem := h.isItem items[k] (List.getElem_mem hk)
  have hdrop : items.drop k = items[k] :: items.drop (k + 1) := List.drop_eq_getElem_cons hk
  have htake : (items.take (k + 1)).flatten.length =
      (items.take k).flatten.length + items[k].length := by
    rw [List.take_add_one, List.getElem?_eq_getElem hk, Option.toList_some, List.flatten_append,
      List.length_append, List.flatten_singleton]
  have hseek : (memo raw info items k).seek (k + 1) = .ok (items[k] ++
      ((items.drop (k + 1)).flatten ++ rest), 1,
      info.headerLen + (items.take k).flatten.length) := by
    have hd := h.drop_offset k
    rw [hdrop, List.flatten_cons, List.append_assoc] at hd
    simp only [View.seek, memo, Option.filter_some, decide_eq_true (Nat.le_succ k), ite_true, bind,
      Except.bind, consume, h.offset_le k, pure, Except.pure, hd, Nat.add_sub_cancel_left]
  have hone : ∀ item ∈ [items[k]], IsItem item := by
    simpa using hitem
  have hskip := consumeItems_flatten hone ((items.drop (k + 1)).flatten ++ rest)
  simp only [List.flatten_singleton, List.length_singleton] at hskip
  have hlist : (memo raw info items k).isList = true := h.isList
  simp only [View.atIndex, hlist, ite_true, hseek, hskip]
  cases payloadInfo ((items.drop (k + 1)).flatten ++ rest) with
  | error e => simp only [memo, htake, Nat.add_assoc]
  | ok found => simp only [memo, htake, Nat.add_assoc]

/-- A visit to the first item from a fresh view, or from a memo past it. -/
theorem atIndex_zero (h : Layout raw info items rest) (hne : 0 < items.length)
    {cache : Option OffsetCache} (hc : cache.filter (·.index ≤ 0) = none) :
    View.atIndex { bytes := raw, offsetCache := cache } 0 =
      (.ok { bytes := items[0] }, memo raw info items 0) := by
  have hitem := h.isItem items[0] (List.getElem_mem hne)
  have hfirst : items[0].length ≤ info.valueLen := by
    apply h.first
    rw [List.head?_eq_getElem?, List.getElem?_eq_getElem hne]
    rfl
  have hbody : raw.drop info.headerLen = items[0] ++ ((items.drop 1).flatten ++ rest) := by
    rw [h.body, ← List.append_assoc, ← List.flatten_cons, ← List.drop_eq_getElem_cons hne,
      List.drop_zero]
  obtain ⟨found, hf, hl⟩ := hitem.payloadInfo_append ((items.drop 1).flatten ++ rest)
  have hpay := payloadInfo_take hf (n := info.valueLen) (by omega)
  have hseek : View.seek { bytes := raw, offsetCache := cache } 0 =
      .ok ((items[0] ++ ((items.drop 1).flatten ++ rest)).take info.valueLen, 0,
        info.headerLen) := by
    simp only [View.seek, hc, View.consumeListPayload, h.header, bind, Except.bind, pure,
      Except.pure, hbody]
  have hlist : View.isList { bytes := raw, offsetCache := cache } = true := h.isList
  simp only [View.atIndex, hlist, ite_true, hseek, consumeItems, hpay, memo, List.take_zero,
    List.flatten_nil, List.length_nil, Nat.add_zero, List.take_take, hl,
    Nat.min_eq_left hfirst, List.take_left']

/-- A visit to the next item finds it. -/
theorem atIndex_succ (h : Layout raw info items rest) {k : Nat} (hk : k + 1 < items.length) :
    (memo raw info items k).atIndex (k + 1) =
      (.ok { bytes := items[k + 1] }, memo raw info items (k + 1)) := by
  have hitem := h.isItem items[k + 1] (List.getElem_mem hk)
  have hcons : (items.drop (k + 1)).flatten ++ rest =
      items[k + 1] ++ ((items.drop (k + 1 + 1)).flatten ++ rest) := by
    rw [List.drop_eq_getElem_cons hk, List.flatten_cons, List.append_assoc]
  obtain ⟨found, hf, hl⟩ := hitem.payloadInfo_append ((items.drop (k + 1 + 1)).flatten ++ rest)
  rw [h.atIndex_next (by omega), hcons, hf]
  simp only [hl, List.take_left']

/-- A remainder that starts with an item extends the layout. -/
theorem extend (h : Layout raw info items rest) (hne : 0 < items.length) {found : PayloadInfo}
    (hf : payloadInfo rest = .ok found) :
    Layout raw info (items ++ [rest.take found.total]) (rest.drop found.total) where
  isList := h.isList
  header := h.header
  body := by
    rw [h.body, List.flatten_append, List.flatten_singleton, List.append_assoc,
      List.take_append_drop]
  isItem := by
    intro item hitem
    rcases List.mem_append.mp hitem with hm | hm
    · exact h.isItem item hm
    · rw [List.mem_singleton.mp hm]
      exact isItem_take hf
  first := by
    intro item hitem
    rw [List.head?_append_of_ne_nil _ (List.ne_nil_of_length_pos hne)] at hitem
    exact h.first item hitem

/-- The memo at the end of the known items does not see the items found later. -/
theorem memo_append (extra : List (List UInt8)) {k : Nat} (hk : k ≤ items.length) :
    memo raw info (items ++ extra) k = memo raw info items k := by
  simp only [memo, List.take_append_of_le_length hk]

/-- Counting on from the last known item finds the rest of the layout. The fuel
bounds the items that can still follow, each of which takes a byte. -/
theorem countFrom_exists (fuel : Nat) (h : Layout raw info items rest) {k : Nat}
    (hk : items.length = k + 1) (hfuel : rest.length < fuel) :
    ∃ items' rest', Layout raw info items' rest' ∧ Stops rest' ∧ 0 < items'.length ∧
      View.countFrom fuel (memo raw info items k) (k + 1) =
        (items'.length, memo raw info items' items'.length) := by
  induction fuel generalizing items rest k with
  | zero => omega
  | succ fuel ih =>
    have hnil : (items.drop (k + 1)).flatten ++ rest = rest := by
      rw [List.drop_of_length_le (by omega)]
      rfl
    have hat := h.atIndex_next (show k < items.length by omega)
    rw [hnil] at hat
    cases hp : payloadInfo rest with
    | error e =>
      refine ⟨items, rest, h, fun found hf => ?_, by omega, ?_⟩
      · rw [hp] at hf
        contradiction
      · rw [hp] at hat
        simp only [View.countFrom, hat, hk]
    | ok found =>
      have hfit := payloadInfo_eq_ok_iff.mp hp
      have hpos := total_pos hfit.1
      obtain ⟨items', rest', h', hstop, hpos', hcount⟩ :=
        ih (h.extend (by omega) hp) (k := k + 1) (by simp [hk]) (by
          rw [List.length_drop]
          omega)
      refine ⟨items', rest', h', hstop, hpos', ?_⟩
      rw [hp] at hat
      simp only [View.countFrom, hat]
      rw [← hcount, memo_append _ (by omega)]

/-- Two decompositions of one buffer with nothing left to parse are the same. -/
theorem unique {items' : List (List UInt8)} {rest' : List UInt8} {info' : PayloadInfo}
    (h : Layout raw info items rest) (h' : Layout raw info' items' rest') (hs : Stops rest)
    (hs' : Stops rest') : items = items' ∧ rest = rest' := by
  have hinfo : info = info' := Except.ok.inj (h.header.symm.trans h'.header)
  have hbody : items.flatten ++ rest = items'.flatten ++ rest' := by
    rw [← h.body, ← h'.body, hinfo]
  have stuck {xs : List (List UInt8)} {r r' : List UInt8} (hx : ∀ x ∈ xs, IsItem x)
      (hr : Stops r) (he : r = xs.flatten ++ r') : xs = [] := by
    cases xs with
    | nil => rfl
    | cons x xs =>
      rw [List.flatten_cons, List.append_assoc] at he
      obtain ⟨found, hf, _⟩ :=
        (hx x (List.mem_cons_self ..)).payloadInfo_append (xs.flatten ++ r')
      exact absurd (he ▸ hf) (hr found)
  have hi := h.isItem
  have hi' := h'.isItem
  clear h h'
  induction items generalizing items' with
  | nil =>
    rw [List.flatten_nil, List.nil_append] at hbody
    have he := stuck hi' hs hbody
    subst he
    exact ⟨rfl, by simpa using hbody⟩
  | cons item items ih =>
    cases items' with
    | nil =>
      rw [List.flatten_nil, List.nil_append] at hbody
      exact absurd (stuck hi hs' hbody.symm) (List.cons_ne_nil _ _)
    | cons item' items' =>
      rw [List.flatten_cons, List.flatten_cons, List.append_assoc, List.append_assoc] at hbody
      obtain ⟨he, ht⟩ := (hi item (List.mem_cons_self ..)).append_cancel
        (hi' item' (List.mem_cons_self ..)) hbody
      obtain ⟨hee, hre⟩ := ih ht (fun a ha => hi a (List.mem_cons_of_mem _ ha))
        (fun a ha => hi' a (List.mem_cons_of_mem _ ha))
      exact ⟨by rw [he, hee], hre⟩

end Layout

/-- A visit to the first item of a fresh list view fails when the list's header or the first
header in its payload does not parse. -/
theorem atIndex_zero_error {raw : List UInt8} {e : DecoderError}
    (hlist : View.isList { bytes := raw } = true)
    (h : (payloadInfo raw).bind (fun info =>
      payloadInfo ((raw.drop info.headerLen).take info.valueLen)) = .error e) :
    ∃ r, View.atIndex { bytes := raw } 0 = (.error e, r) := by
  cases hinfo : payloadInfo raw with
  | error e' =>
    rw [hinfo] at h
    cases h
    exact ⟨{ bytes := raw }, by
      simp [View.atIndex, hlist, View.seek, View.consumeListPayload, hinfo, bind, Except.bind]⟩
  | ok info =>
    rw [hinfo] at h
    change payloadInfo ((raw.drop info.headerLen).take info.valueLen) = .error e at h
    exact ⟨{ bytes := raw, offsetCache := some ⟨0, info.headerLen⟩ }, by
      simp [View.atIndex, hlist, View.seek, View.consumeListPayload, hinfo, bind, Except.bind,
        pure, Except.pure, consumeItems, h]⟩

/-- A list whose payload starts with an item is laid out with that item in front. -/
theorem layout_first {raw : List UInt8} {info found : PayloadInfo}
    (hlist : View.isList { bytes := raw } = true) (hinfo : payloadInfo raw = .ok info)
    (hp : payloadInfo ((raw.drop info.headerLen).take info.valueLen) = .ok found) :
    Layout raw info [(raw.drop info.headerLen).take found.total]
      ((raw.drop info.headerLen).drop found.total) := by
  have hle : found.total ≤ info.valueLen := by
    have hfit := (payloadInfo_eq_ok_iff.mp hp).2
    rw [List.length_take] at hfit
    omega
  have hraw : payloadInfo (raw.drop info.headerLen) = .ok found := by
    have happ := payloadInfo_append hp ((raw.drop info.headerLen).drop info.valueLen)
    rwa [List.take_append_drop] at happ
  refine ⟨hlist, hinfo, by simp, ?_, ?_⟩
  · intro item hitem
    rw [List.mem_singleton.mp hitem]
    exact isItem_take hraw
  · intro item hitem
    cases hitem
    rw [List.length_take]
    omega

/-- Counting never falls behind its start. -/
theorem le_countFrom (fuel : Nat) (r : View) (k : Nat) : k ≤ (View.countFrom fuel r k).1 := by
  induction fuel generalizing r k with
  | zero => exact le_rfl
  | succ fuel ih =>
    rw [View.countFrom]
    split
    · exact le_trans (Nat.le_succ k) (ih _ _)
    · exact le_rfl

/-- Counting succeeds with a positive number exactly by finding a layout. -/
theorem itemCount_exists {raw : List UInt8} {n : Nat} {r : View}
    (h : View.itemCount { bytes := raw } = .ok (n, r)) (hn : 0 < n) :
    ∃ info items rest, Layout raw info items rest ∧ Stops rest ∧ items.length = n ∧
      r = memo raw info items n := by
  unfold View.itemCount at h
  split at h
  · rename_i hlist
    have hcount := Except.ok.inj h
    rw [View.countFrom] at hcount
    cases hfirst : (payloadInfo raw).bind (fun info =>
        payloadInfo ((raw.drop info.headerLen).take info.valueLen)) with
    | error e =>
      -- nothing would have been counted
      obtain ⟨r', hat⟩ := atIndex_zero_error hlist hfirst
      rw [hat] at hcount
      have hzero := congrArg Prod.fst hcount
      simp only at hzero
      omega
    | ok found =>
      obtain ⟨info, hinfo, hp⟩ : ∃ info, payloadInfo raw = .ok info ∧
          payloadInfo ((raw.drop info.headerLen).take info.valueLen) = .ok found := by
        cases hinfo : payloadInfo raw with
        | error e =>
          rw [hinfo] at hfirst
          contradiction
        | ok info =>
          rw [hinfo] at hfirst
          exact ⟨info, rfl, hfirst⟩
      have hlay := layout_first hlist hinfo hp
      rw [hlay.atIndex_zero (by simp) rfl] at hcount
      obtain ⟨items, rest, hlay', hstop, _, hc⟩ :=
        hlay.countFrom_exists raw.length (k := 0) rfl (by
          have hpos := total_pos (payloadInfo_eq_ok_iff.mp hp).1
          have hfit := (payloadInfo_eq_ok_iff.mp hp).2
          simp only [List.length_drop, List.length_take] at hfit ⊢
          omega)
      change View.countFrom raw.length (memo raw info _ 0) (0 + 1) = (n, r) at hcount
      rw [hc] at hcount
      cases hcount
      exact ⟨info, items, rest, hlay', hstop, rfl, rfl⟩
  · contradiction

/-- The items of a layout with nothing left to parse are all counted. -/
theorem Layout.itemCount_eq {raw : List UInt8} {info : PayloadInfo} {items : List (List UInt8)}
    {rest : List UInt8} (h : Layout raw info items rest) (hs : Stops rest)
    (hne : 0 < items.length) :
    View.itemCount { bytes := raw } = .ok (items.length, memo raw info items items.length) := by
  cases hc : View.itemCount { bytes := raw } with
  | error e =>
    unfold View.itemCount at hc
    simp [h.isList] at hc
  | ok v =>
    obtain ⟨n, r⟩ := v
    have hn : 0 < n := by
      unfold View.itemCount at hc
      rw [if_pos h.isList, View.countFrom, h.atIndex_zero hne rfl] at hc
      have hfst : (View.countFrom raw.length (memo raw info items 0) 1).1 = n :=
        congrArg Prod.fst (Except.ok.inj hc)
      have hle := le_countFrom raw.length (memo raw info items 0) 1
      omega
    obtain ⟨info', items', rest', h', hs', hl', hr⟩ := itemCount_exists hc hn
    obtain ⟨rfl, rfl⟩ := h.unique h' hs hs'
    have hinfo : info = info' := Except.ok.inj (h.header.symm.trans h'.header)
    subst hinfo
    rw [hr, hl']

namespace Layout

variable {raw : List UInt8} {info : PayloadInfo} {items : List (List UInt8)} {rest : List UInt8}
  {α : Type} [Decodable α]

/-- Decoding the first item after the count, and going on from there. -/
theorem valAt_zero_bind {β : Type} (h : Layout raw info items rest) (hne : 0 < items.length)
    {n : Nat} (hn : 0 < n) (f : α × View → Except DecoderError β) :
    (View.valAt 0 (memo raw info items n)).bind f =
      (Decodable.decode { bytes := items[0] }).bind fun a => f (a, memo raw info items 0) := by
  have hc : (memo raw info items n).offsetCache.filter (·.index ≤ 0) = none := by
    simp [memo]
    omega
  have hat := h.atIndex_zero hne hc
  have hmemo : memo raw info items n =
      { bytes := raw, offsetCache := (memo raw info items n).offsetCache } := rfl
  simp only [View.valAt, View.asVal]
  rw [hmemo, hat]
  cases hd : Decodable.decode (α := α) { bytes := items[0] } <;>
    simp only [hd, Except.map, Except.bind]

/-- Decoding the item after the memo, and going on from there. -/
theorem valAt_succ_bind {β : Type} (h : Layout raw info items rest) (k : Nat)
    (hk : k + 1 < items.length) (f : α × View → Except DecoderError β) :
    (View.valAt (k + 1) (memo raw info items k)).bind f =
      (Decodable.decode { bytes := items[k + 1] }).bind fun a =>
        f (a, memo raw info items (k + 1)) := by
  simp only [View.valAt, View.asVal, h.atIndex_succ hk]
  cases hd : Decodable.decode (α := α) { bytes := items[k + 1] } <;>
    simp only [Except.map, Except.bind]

end Layout

end Rlp
