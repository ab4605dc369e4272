import Tethereum.Db.Overlay

/-!
# Deleting empty accounts

A backend may delete the accounts that a modification leaves empty. The machine does not
notice, except for which accounts exist, exactly when no modification leaves an account
that is empty but stores something. Otherwise what was stored is lost.
-/

namespace Tethereum

namespace Accounts

variable {accounts : Accounts} {values : List Apply} {address : H160}

/-- A change that deletes what it leaves empty still edits only the account it concerns. -/
theorem getElem?_applyOne_true (accounts : Accounts) (apply : Apply) (address : H160) :
    (accounts.applyOne true apply)[address]? =
      if apply.address = address then (apply.edit accounts[address]?).filter (!·.isEmpty)
      else accounts[address]? := by
  cases apply with
  | delete deleted => exact getElem?_erase_ite
  | modify change =>
    have hcase : ∀ account : MemAccount,
        (if account.isEmpty && true then
          (accounts.insert change.address account).erase change.address
        else accounts.insert change.address account)[address]? =
          if change.address = address then (some account).filter (!·.isEmpty)
          else accounts[address]? := by
      intro account
      rw [Bool.and_true, Option.filter_some]
      cases account.isEmpty with
      | true =>
        rw [if_pos rfl, getElem?_erase_ite, getElem?_insert_ite]
        by_cases h : change.address = address
        · rw [if_pos h, if_pos h]
          rfl
        · rw [if_neg h, if_neg h, if_neg h]
      | false => exact getElem?_insert_ite
    rw [applyOne, hcase]
    by_cases h : change.address = address
    · subst h
      rfl
    · exact (if_neg h).trans (if_neg h).symm

/-- No modification leaves an account that is empty but stores something. -/
def HidesNothing (accounts : Accounts) (values : List Apply) : Prop :=
  ∀ (before : List Apply) (change : Modify) (account : MemAccount),
    before ++ [Apply.modify change] <+: values →
      ((before ++ [Apply.modify change]).foldl (applyOne false) accounts)[change.address]? =
        some account → account.isEmpty = true → account.storage = ∅

/-- Fewer changes hide nothing either. -/
theorem HidesNothing.earlier {before : List Apply} (h : accounts.HidesNothing values)
    (hbefore : before <+: values) : accounts.HidesNothing before :=
  fun earlier change account he => h earlier change account (he.trans hbefore)

/-- A changed account that is empty stores nothing. -/
theorem HidesNothing.storage_eq_empty (h : accounts.HidesNothing values)
    (hmem : address ∈ values.map Apply.address) {account : MemAccount}
    (ha : (values.foldl (applyOne false) accounts)[address]? = some account)
    (he : account.isEmpty = true) : account.storage = ∅ := by
  induction values using List.reverseRecOn with
  | nil => cases hmem
  | append_singleton values apply ih =>
    have hearlier := h.earlier (List.prefix_append values [apply])
    by_cases haddress : apply.address = address
    · cases apply with
      | modify change =>
        rw [← haddress] at ha
        exact h values change account (List.prefix_refl _) ha he
      | delete deleted =>
        rw [List.foldl_concat, getElem?_applyOne, if_pos haddress] at ha
        cases ha
    · rw [List.foldl_concat, getElem?_applyOne, if_neg haddress] at ha
      rw [List.map_append, List.mem_append, List.map_singleton, List.mem_singleton] at hmem
      exact ih hearlier (hmem.resolve_right fun heq => haddress heq.symm) ha

/-- An empty account that stores nothing is like an absent one. -/
theorem getD_filter_isEmpty {account : Option MemAccount}
    (h : ∀ a, account = some a → a.isEmpty = true → a.storage = ∅) :
    (account.filter (!·.isEmpty)).getD {} = account.getD {} := by
  cases account with
  | none => rfl
  | some a =>
    cases he : a.isEmpty with
    | false => rw [Option.filter_some, he]; rfl
    | true =>
      have hs := h a rfl he
      obtain ⟨nonce, balance, storage, code⟩ := a
      simp only [MemAccount.isEmpty, Bool.and_eq_true, beq_iff_eq, List.length_eq_zero_iff] at he hs
      obtain ⟨⟨rfl, rfl⟩, rfl⟩ := he
      subst hs
      rfl

/-- If nothing is hidden, deleting empty accounts on the way comes to deleting the changed ones
in the end. -/
theorem HidesNothing.getElem?_foldl_applyOne (h : accounts.HidesNothing values) (address : H160) :
    (values.foldl (applyOne true) accounts)[address]? =
      if address ∈ values.map Apply.address then
        (values.foldl (applyOne false) accounts)[address]?.filter (!·.isEmpty)
      else (values.foldl (applyOne false) accounts)[address]? := by
  induction values using List.reverseRecOn with
  | nil => rfl
  | append_singleton values apply ih =>
    have hearlier := h.earlier (List.prefix_append values [apply])
    rw [List.foldl_concat, List.foldl_concat, getElem?_applyOne_true, getElem?_applyOne,
      ih hearlier]
    by_cases haddress : apply.address = address
    · have hmem : address ∈ (values ++ [apply]).map Apply.address := by
        simp [haddress]
      rw [if_pos haddress, if_pos haddress, if_pos hmem]
      cases apply with
      | delete deleted => rfl
      | modify change =>
        -- both start from the same account, present or not
        simp only [Apply.edit]
        split
        · rename_i hchanged
          rw [getD_filter_isEmpty fun a ha he => hearlier.storage_eq_empty hchanged ha he]
        · rfl
    · have hmem : address ∈ (values ++ [apply]).map Apply.address ↔
          address ∈ values.map Apply.address := by
        simp [Ne.symm haddress]
      rw [if_neg haddress, if_neg haddress]
      simp only [hmem]

/-- If nothing is hidden, accounts are read alike, present or not. -/
theorem HidesNothing.getD_foldl_applyOne (h : accounts.HidesNothing values) (address : H160) :
    (values.foldl (applyOne true) accounts)[address]?.getD {} =
      (values.foldl (applyOne false) accounts)[address]?.getD {} := by
  rw [h.getElem?_foldl_applyOne]
  split
  · rename_i hchanged
    exact getD_filter_isEmpty fun a ha he => h.storage_eq_empty hchanged ha he
  · rfl

end Accounts

namespace EthDBBackend

variable {self other : EthDBBackend} {values : List Apply}

/-- The machine gets the same answers from both backends, except for which accounts exist. -/
def AnswersLike (self other : EthDBBackend) : Prop :=
  self.view = { other.view with «exists» := self.view.exists }

/-- An account as it is read: an absent one is like a new one. -/
def read (self : EthDBBackend) (address : H160) : MemAccount := self.accounts[address]?.getD {}

/-- Balance and nonce are those that are read. -/
theorem basic_eq_read (address : H160) :
    self.view.basic address = ⟨(self.read address).balance, (self.read address).nonce⟩ := by
  simp only [view, basic, read]
  cases self.accounts[address]? <;> rfl

/-- The code is the one that is read. -/
theorem code_eq_read (address : H160) : self.view.code address = (self.read address).code := by
  simp only [view, read]
  cases self.accounts[address]? <;> rfl

/-- A slot is present if it is in the storage that is read. -/
theorem originalStorage_eq_read (address : H160) (index : H256) :
    self.view.originalStorage address index = (self.read address).storage[index]? := by
  simp only [view, originalStorage, read]
  cases self.accounts[address]? with
  | none => exact Std.ExtTreeMap.getElem?_empty.symm
  | some account => rfl

/-- Backends of one transaction on one block answer alike exactly when accounts are read alike. -/
theorem answersLike_iff (hgas : self.gasPrice = other.gasPrice)
    (hsender : self.sender = other.sender) (hblock : self.block = other.block) :
    self.AnswersLike other ↔ ∀ address, self.read address = other.read address := by
  constructor
  · intro h address
    have hbasic : self.view.basic address = other.view.basic address :=
      congrFun (congrArg Backend.basic h) address
    have hcode : self.view.code address = other.view.code address :=
      congrFun (congrArg Backend.code h) address
    have hstorage : ∀ index, self.view.originalStorage address index =
        other.view.originalStorage address index :=
      congrFun (congrFun (congrArg Backend.originalStorage h) address)
    simp only [basic_eq_read, Basic.mk.injEq] at hbasic
    simp only [code_eq_read] at hcode
    simp only [originalStorage_eq_read] at hstorage
    generalize self.read address = account at hbasic hcode hstorage
    generalize other.read address = account' at hbasic hcode hstorage
    obtain ⟨nonce, balance, storage, code⟩ := account
    obtain ⟨nonce', balance', storage', code'⟩ := account'
    obtain ⟨rfl, rfl⟩ := hbasic
    obtain rfl := hcode
    obtain rfl := Std.ExtTreeMap.ext_getElem? hstorage
    rfl
  · intro h
    have hbasic : self.view.basic = other.view.basic := by
      funext address
      rw [basic_eq_read, basic_eq_read, h]
    have hcode : self.view.code = other.view.code := by
      funext address
      rw [code_eq_read, code_eq_read, h]
    have hstorage : self.view.originalStorage = other.view.originalStorage := by
      funext address index
      rw [originalStorage_eq_read, originalStorage_eq_read, h]
    simp only [view] at hbasic hcode hstorage
    simp only [AnswersLike, view, hgas, hsender, hblock, hbasic, hcode, hstorage]

/-- Whether empty accounts are deleted is not noticed if accounts are read alike. -/
theorem apply_answersLike_iff (self : EthDBBackend) (values : List Apply) (logs : List Log) :
    (self.apply values logs true).AnswersLike (self.apply values logs false) ↔ ∀ address,
      (self.apply values logs true).read address = (self.apply values logs false).read address :=
  answersLike_iff rfl rfl rfl

/-- Deleting empty accounts is not noticed at any time, except for which accounts exist, exactly
when nothing is hidden. Then the changed accounts that are empty in the end are all that is
deleted. -/
theorem apply_deleteEmpty_iff (self : EthDBBackend) (values : List Apply) (logs : List Log) :
    ((∀ before, before <+: values →
      (self.apply before logs true).AnswersLike (self.apply before logs false)) ↔
      self.accounts.HidesNothing values) ∧
      (self.accounts.HidesNothing values → ∀ address,
        (self.apply values logs true).accounts[address]? =
          if address ∈ values.map Apply.address then
            (self.apply values logs false).accounts[address]?.filter (!·.isEmpty)
          else self.accounts[address]?) := by
  refine ⟨⟨fun h before change account hbefore ha he => ?_, fun h before hbefore => ?_⟩,
    fun h address => ?_⟩
  · have hread := (self.apply_answersLike_iff _ logs).mp (h _ hbefore) change.address
    have hself : (Apply.modify change).address = change.address := rfl
    simp only [read, apply] at hread
    rw [ha, Option.getD_some, List.foldl_concat, Accounts.getElem?_applyOne_true, if_pos hself]
      at hread
    -- what is kept is not empty, so the account is an absent one
    cases hkept : (Apply.edit (.modify change)
      (before.foldl (Accounts.applyOne true) self.accounts)[change.address]?).filter
        (!·.isEmpty) with
    | none =>
      rw [hkept] at hread
      rw [← hread]
      rfl
    | some kept =>
      have hfull := (Option.filter_eq_some_iff.mp hkept).2
      rw [hkept, Option.getD_some] at hread
      rw [hread, he] at hfull
      cases hfull
  · exact (self.apply_answersLike_iff before logs).mpr
      (h.earlier hbefore).getD_foldl_applyOne
  · change (values.foldl (Accounts.applyOne true) self.accounts)[address]? = _
    rw [h.getElem?_foldl_applyOne]
    by_cases hchanged : address ∈ values.map Apply.address
    · rw [if_pos hchanged, if_pos hchanged]
      rfl
    · rw [if_neg hchanged, if_neg hchanged]
      refine self.getElem?_accounts_apply values logs fun value hvalue heq => ?_
      exact hchanged (List.mem_map.mpr ⟨value, hvalue, heq⟩)

/-- An account that is only touched is deleted, and it is not noticed. -/
theorem apply_deleteEmpty_iff_touched :
    let self := HashMapEthDB.requestBackend .zero ∅ ⟨{}, [], []⟩
    let values := [Apply.modify ⟨.zero, ⟨0, 0⟩, none, [], false⟩]
    (self.apply values [] false).view.exists .zero = true ∧
      (self.apply values [] true).view.exists .zero = false ∧
        (∀ before, before <+: values →
          (self.apply before [] true).AnswersLike (self.apply before [] false)) ∧
          ∀ address, (self.apply values [] true).accounts[address]? =
            if address ∈ values.map Apply.address then
              (self.apply values [] false).accounts[address]?.filter (!·.isEmpty)
            else self.accounts[address]? := by
  intro self values
  have hhides : self.accounts.HidesNothing values := by
    intro before change account hbefore ha _
    cases before with
    | nil =>
      obtain ⟨hchange, _⟩ := List.cons_prefix_cons.mp hbefore
      cases hchange
      cases Option.some.inj ha
      rfl
    | cons first before =>
      have hlen := hbefore.length_le
      simp [values] at hlen
  have hiff := apply_deleteEmpty_iff self values []
  exact ⟨by decide +kernel, by decide +kernel, hiff.1.mpr hhides, hiff.2 hhides⟩

end EthDBBackend

end Tethereum
