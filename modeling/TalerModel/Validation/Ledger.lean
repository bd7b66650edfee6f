import TalerModel.Coins.Theorems.AddressIndex
import TalerModel.Coins.Theorems.View
import TalerModel.Validation.DisconnectBlock

namespace Taler

open PartialMap CAddressIndexDB ConnectContext List

-- What the two stores hold without caches and flags: unspent coins and index records.
structure Ledger where
  coins : COutPoint → Option Coin
  records : COutPoint → Option CAddressValue

namespace ConnectContext

variable [Crypto] (ctx : ConnectContext) (pindex : CBlockIndex) (tx : CTransaction)

-- The writes to the index for a transaction that is connected, and for one that is disconnected.

def spentWrites (coins : COutPoint → Option Coin) : List (CAddressKey × CAddressValue) :=
  tx.prevouts.zipIdx.map fun (out, j) =>
    let coin := (coins out).getD Coin.empty
    (CAddressKey.ofScript coin.out.scriptPubKey out, ctx.spentEntry pindex tx coin j)

def createdWrites : List (CAddressKey × CAddressValue) :=
  (tx.coins (nHeight pindex)).map fun (out, coin) =>
    (CAddressKey.ofScript coin.out.scriptPubKey out, coin.entry)

def removedWrites : List (CAddressKey × CAddressValue) :=
  (tx.coins (nHeight pindex)).map fun (out, coin) =>
    (CAddressKey.ofScript coin.out.scriptPubKey out, {})

def restoredWrites (vprevout : List Coin) : List (CAddressKey × CAddressValue) :=
  (tx.prevouts.zip vprevout).reverse.map fun (out, coin) =>
    (CAddressKey.ofScript coin.out.scriptPubKey out, coin.entry)

def connectWrites (coins : COutPoint → Option Coin) : List (CAddressKey × CAddressValue) :=
  if ctx.fAddressIndex then ctx.spentWrites pindex tx coins ++ createdWrites pindex tx else []

def disconnectWrites (vprevout : List Coin) : List (CAddressKey × CAddressValue) :=
  if ctx.fAddressIndex then removedWrites pindex tx ++ restoredWrites tx vprevout else []

end ConnectContext

structure Coin.Restorable (coin : Coin) : Prop where
  height : 0 < coin.nHeight
  unspent : coin.isSpent = false
  spendable : coin.out.scriptPubKey.isUnspendable = false

namespace Ledger

variable [Crypto] (ctx : ConnectContext) (pindex : CBlockIndex)

def connect (tx : CTransaction) (ledger : Ledger) : Ledger where
  coins := insertAll (eraseAll ledger.coins tx.prevouts) (tx.coins (nHeight pindex))
  records := updateAll ledger.records (recorded (ctx.connectWrites pindex tx ledger.coins))

def disconnect (tx : CTransaction) (vprevout : List Coin) (ledger : Ledger) : Ledger where
  coins := insertAll (eraseAll ledger.coins ((tx.coins (nHeight pindex)).map Prod.fst))
    (tx.prevouts.zip vprevout).reverse
  records := updateAll ledger.records (recorded (ctx.disconnectWrites pindex tx vprevout))

-- A transaction whose inputs are these coins and whose outputs are not there.
structure Accepts (ledger : Ledger) (tx : CTransaction) (vprevout : List Coin) : Prop where
  spent : List.Forall₂ (fun out coin => ledger.coins out = some coin) tx.prevouts vprevout
  inputs : tx.prevouts.Nodup
  new : ∀ kv ∈ tx.coins (nHeight pindex), eraseAll ledger.coins tx.prevouts kv.1 = none
  outputs : ∀ kv ∈ tx.coins (nHeight pindex), kv.2.isSpent = false

inductive AcceptsAll : List CTransaction → CBlockUndo → Ledger → Prop
  | nil {ledger : Ledger} : AcceptsAll [] [] ledger
  | cons {tx : CTransaction} {rest : List CTransaction} {vprevout : List Coin}
    {vtxundo : CBlockUndo} {ledger : Ledger} (head : ledger.Accepts pindex tx vprevout)
    (tail : AcceptsAll rest vtxundo (ledger.connect ctx pindex tx)) :
    AcceptsAll (tx :: rest) (vprevout :: vtxundo) ledger

def connectAll (vtx : List CTransaction) (ledger : Ledger) : Ledger :=
  vtx.foldl (fun ledger tx => ledger.connect ctx pindex tx) ledger

structure AcceptsBlock (block : CBlock) (vtxundo : CBlockUndo) (ledger : Ledger) : Prop where
  height : 0 < nHeight pindex
  first : ∃ coinbase rest, block.vtx = coinbase :: rest ∧ coinbase.isCoinBase ∧
    ∀ tx ∈ rest, tx.isCoinBase = false ∧ tx.prevouts ≠ []
  all : AcceptsAll ctx pindex block.vtx ([] :: vtxundo) ledger

def connectBlock (block : CBlock) (ledger : Ledger) : Ledger :=
  ledger.connectAll ctx pindex block.vtx

def disconnectAll (txs : List (CTransaction × List Coin)) (ledger : Ledger) : Ledger :=
  txs.foldr (fun p ledger => ledger.disconnect ctx pindex p.1 p.2) ledger

def disconnectBlock (block : CBlock) (vtxundo : CBlockUndo) (ledger : Ledger) : Ledger :=
  ledger.disconnectAll ctx pindex (block.vtx.zip ([] :: vtxundo))

-- The ledger of a chain with the transactions hashed in `seen`, where `txOf` undoes the hash.
structure Consistent (txOf : Uint256 → CTransaction) (seen : Uint256 → Prop) (ledger : Ledger) :
    Prop where
  known : ledger.coins out = some coin →
    seen out.hash ∧ (txOf out.hash).vout[out.n]? = some coin.out ∧ 0 < coin.nHeight
  listed : ctx.fAddressIndex → ledger.coins out = some coin → ledger.records out = some coin.entry
  filed : ledger.records out ≠ none → seen out.hash
  -- What a connected transaction spends is known and stays spent.
  closed : seen txid → ∀ out ∈ (txOf txid).prevouts, seen out.hash ∧ ledger.coins out = none

variable {ctx : ConnectContext} {pindex : CBlockIndex} {tx : CTransaction} {ledger : Ledger}
  {vprevout : List Coin} {txOf : Uint256 → CTransaction} {seen : Uint256 → Prop}
  {out : COutPoint} {coin : Coin}

section

omit [Crypto]

lemma Accepts.mem_zip (h : ledger.Accepts pindex tx vprevout)
    (hm : (out, coin) ∈ tx.prevouts.zip vprevout) : ledger.coins out = some coin :=
  forall₂_zip h.spent hm

lemma Accepts.map_fst_zip (h : ledger.Accepts pindex tx vprevout) :
    (tx.prevouts.zip vprevout).map Prod.fst = tx.prevouts :=
  List.map_fst_zip (Nat.le_of_eq h.spent.length_eq)

lemma Accepts.prevout (h : ledger.Accepts pindex tx vprevout) (hm : out ∈ tx.prevouts) :
    ∃ coin, ledger.coins out = some coin := by
  rw [← h.map_fst_zip] at hm
  have ⟨⟨_, coin⟩, hz, he⟩ := mem_map.mp hm
  exact ⟨coin, he ▸ h.mem_zip hz⟩

end

lemma Accepts.disconnect_coins (h : ledger.Accepts pindex tx vprevout) :
    ((ledger.connect ctx pindex tx).disconnect ctx pindex tx vprevout).coins = ledger.coins := by
  rw [connect, disconnect]
  rw [eraseAll_insertAll h.new]
  apply insertAll_eraseAll
  case hm => exact fun kv hm => h.mem_zip (mem_reverse.mp hm)
  case hk => simp [map_reverse, h.map_fst_zip]

lemma disconnect_coins_congr {ledger' : Ledger} (h : ledger'.coins = ledger.coins) :
    (ledger'.disconnect ctx pindex tx vprevout).coins =
      (ledger.disconnect ctx pindex tx vprevout).coins := by
  rw [disconnect, disconnect, h]

lemma disconnectAll_coins_congr {ledger' : Ledger} (h : ledger'.coins = ledger.coins) (txs) :
    (ledger'.disconnectAll ctx pindex txs).coins = (ledger.disconnectAll ctx pindex txs).coins := by
  induction txs
  case nil => exact h
  case cons p txs hi => exact disconnect_coins_congr hi

omit [Crypto] in
lemma mem_coins_outpoint (h : (out, coin) ∈ tx.coins n) :
    ∃ i, out = tx.outpoint i ∧ tx.vout[i]? = some coin.out ∧ coin.nHeight = n ∧
      coin.out.scriptPubKey.isUnspendable = false := by
  have ⟨txout, i, hm, hu, he⟩ := mem_outputCoins h
  cases he
  exact ⟨i, rfl, mk_mem_zipIdx_iff_getElem?.mp hm, rfl, hu⟩

omit [Crypto] in
lemma hash_of_mem_coins (h : (out, coin) ∈ tx.coins n) : out.hash = tx.getHash := by
  have ⟨_, he, _⟩ := mem_coins_outpoint h
  rw [he]
  rfl

lemma connect_coins_cases (h : (ledger.connect ctx pindex tx).coins out = some coin) :
    (out, coin) ∈ tx.coins (nHeight pindex) ∨
    out ∉ tx.prevouts ∧ out ∉ (tx.coins (nHeight pindex)).map Prod.fst ∧
      ledger.coins out = some coin := by
  simp only [connect] at h
  by_cases hk : out ∈ (tx.coins (nHeight pindex)).map Prod.fst
  · obtain ⟨coin', hm, he⟩ := @exists_of_insertAll _ _ _ (eraseAll ledger.coins tx.prevouts) _ _ hk
    rw [h] at he
    cases he
    exact .inl hm
  rw [insertAll_not_mem hk] at h
  by_cases hp : out ∈ tx.prevouts
  · simp [eraseAll_mem hp] at h
  · exact .inr ⟨hp, hk, by rwa [eraseAll_not_mem hp] at h⟩

section

omit [Crypto]

lemma Consistent.unseen_of_coin (h : Consistent ctx txOf seen ledger) (ht : txOf tx.getHash = tx)
    (ho : out ∈ tx.prevouts) (hc : ledger.coins out = some coin) : ¬seen tx.getHash := by
  intro hs
  have ⟨_, hn⟩ := h.closed hs out (ht.symm ▸ ho)
  simp [hc] at hn

lemma Consistent.unseen (h : Consistent ctx txOf seen ledger) (ht : txOf tx.getHash = tx)
    (ha : ledger.Accepts pindex tx vprevout) (hp : tx.prevouts ≠ []) : ¬seen tx.getHash := by
  have ⟨out, hm⟩ := exists_mem_of_ne_nil _ hp
  have ⟨_, hc⟩ := ha.prevout hm
  exact h.unseen_of_coin ht hm hc

lemma recorded_append (writes writes') :
    recorded (writes ++ writes') = recorded writes ++ recorded writes' :=
  map_append

end

-- The outpoints that are written, and what is written where a transaction is disconnected.

lemma keys_connect (hf : ctx.fAddressIndex) :
    (recorded (ctx.connectWrites pindex tx m)).map Prod.fst =
      tx.prevouts ++ (tx.coins (nHeight pindex)).map Prod.fst := by
  have hs : ((recorded (ctx.spentWrites pindex tx m)).map Prod.fst) = tx.prevouts := by
    simp only [recorded, spentWrites, map_map]
    exact zipIdx_map_fst 0 tx.prevouts
  simp only [connectWrites, hf, if_true, recorded_append, map_append, hs]
  simp [recorded, createdWrites, CAddressKey.ofScript, Function.comp_def]

lemma keys_disconnect (hf : ctx.fAddressIndex) (ha : ledger.Accepts pindex tx vprevout) :
    (recorded (ctx.disconnectWrites pindex tx vprevout)).map Prod.fst =
      (tx.coins (nHeight pindex)).map Prod.fst ++ tx.prevouts.reverse := by
  have hr : (recorded (restoredWrites tx vprevout)).map Prod.fst = tx.prevouts.reverse := by
    rw [← ha.map_fst_zip, ← map_reverse]
    simp [recorded, restoredWrites, CAddressKey.ofScript]
  simp only [disconnectWrites, hf, if_true, recorded_append, map_append, hr]
  simp [recorded, removedWrites, CAddressKey.ofScript, Function.comp_def]

lemma mem_disconnect (hf : ctx.fAddressIndex)
    (h : kv ∈ recorded (ctx.disconnectWrites pindex tx vprevout)) :
    (∃ coin, (kv.1, coin) ∈ tx.coins (nHeight pindex)) ∧ kv.2 = none ∨
    ∃ coin, (kv.1, coin) ∈ tx.prevouts.zip vprevout ∧ kv.2 = coin.entry.live := by
  simp only [disconnectWrites, hf, if_true, recorded_append, mem_append] at h
  cases h
  case inl h =>
    have ⟨write, hw, he⟩ := mem_map.mp h
    have ⟨⟨out, coin⟩, hm, hw⟩ := mem_map.mp hw
    subst hw he
    exact .inl ⟨⟨coin, hm⟩, rfl⟩
  rename_i h
  have ⟨write, hw, he⟩ := mem_map.mp h
  have ⟨⟨out, coin⟩, hm, hw⟩ := mem_map.mp hw
  subst hw he
  exact .inr ⟨coin, mem_reverse.mp hm, rfl⟩

omit [Crypto] in
lemma Consistent.live_entry (h : Consistent ctx txOf seen ledger) (hf : ctx.fAddressIndex)
    (hc : ledger.coins out = some coin) : ledger.records out = coin.entry.live := by
  have hh : 0 < coin.entry.height := (h.known hc).2.2
  rw [h.listed hf hc, CAddressValue.live_eq_some hh]

omit [Crypto] in
lemma Consistent.record_none (h : Consistent ctx txOf seen ledger) (hn : ¬seen tx.getHash)
    (hm : (out, coin) ∈ tx.coins n) : ledger.records out = none := by
  by_contra hr
  exact hn (hash_of_mem_coins hm ▸ h.filed hr)

lemma Consistent.disconnect_records (h : Consistent ctx txOf seen ledger)
    (ha : ledger.Accepts pindex tx vprevout) (hn : ¬seen tx.getHash) :
    ((ledger.connect ctx pindex tx).disconnect ctx pindex tx vprevout).records =
      ledger.records := by
  rw [connect, disconnect]
  cases hf : ctx.fAddressIndex
  case false =>
    simp only [connectWrites, disconnectWrites, hf, Bool.false_eq_true, if_false]
    rfl
  apply updateAll_updateAll
  case hm =>
    intro kv hm
    cases mem_disconnect hf hm
    case inl hm =>
      have ⟨⟨_, hm⟩, hv⟩ := hm
      rw [hv, h.record_none hn hm]
    case inr hm =>
    have ⟨_, hm, hv⟩ := hm
    rw [hv, h.live_entry hf (ha.mem_zip hm)]
  case hk =>
  rw [keys_connect hf, keys_disconnect hf ha]
  simp only [mem_append, mem_reverse]
  exact fun _ => Or.symm

lemma Consistent.disconnect_connect (h : Consistent ctx txOf seen ledger)
    (ha : ledger.Accepts pindex tx vprevout) (hn : ¬seen tx.getHash) :
    (ledger.connect ctx pindex tx).disconnect ctx pindex tx vprevout = ledger := by
  have hc := @Accepts.disconnect_coins _ ctx _ _ _ _ ha
  have hr := h.disconnect_records ha hn
  cases ledger
  exact congrArg₂ Ledger.mk hc hr

lemma connect_coins_new (hm : (out, coin) ∈ tx.coins (nHeight pindex)) :
    (ledger.connect ctx pindex tx).coins out = some coin :=
  insertAll_of_mem (tx.coins_nodup _) hm

lemma connect_coins_spent (ho : out ∈ tx.prevouts)
    (hn : out ∉ (tx.coins (nHeight pindex)).map Prod.fst) :
    (ledger.connect ctx pindex tx).coins out = none := by
  rw [connect]
  dsimp only
  rw [insertAll_not_mem hn, eraseAll_mem ho]

lemma connect_coins_other (ho : out ∉ tx.prevouts)
    (hn : out ∉ (tx.coins (nHeight pindex)).map Prod.fst) :
    (ledger.connect ctx pindex tx).coins out = ledger.coins out := by
  rw [connect]
  dsimp only
  rw [insertAll_not_mem hn, eraseAll_not_mem ho]

omit [Crypto] in
lemma not_mem_coins_of_ne (h : out.hash ≠ tx.getHash) : out ∉ (tx.coins n).map Prod.fst := by
  intro hm
  have ⟨_, hk, he⟩ := mem_map.mp hm
  exact h (he ▸ hash_of_mem_coins hk)

lemma connect_records_new (hf : ctx.fAddressIndex) (hp : 0 < nHeight pindex)
    (hm : (out, coin) ∈ tx.coins (nHeight pindex)) :
    (ledger.connect ctx pindex tx).records out = some coin.entry := by
  have hc : recorded (ctx.connectWrites pindex tx ledger.coins) =
      recorded (ctx.spentWrites pindex tx ledger.coins) ++
        (tx.coins (nHeight pindex)).map fun kv => (kv.1, kv.2.entry.live) := by
    simp [connectWrites, hf, recorded, createdWrites, CAddressKey.ofScript]
  have hl : coin.entry.live = some coin.entry := by
    obtain ⟨_, _, _, hh, _⟩ := mem_coins_outpoint hm
    apply CAddressValue.live_eq_some
    rwa [← hh] at hp
  rw [connect]
  rw [hc, updateAll_append, ← hl]
  apply updateAll_of_mem
  case hn => simpa [Function.comp_def] using tx.coins_nodup (nHeight pindex)
  case h => exact mem_map_of_mem hm

lemma connect_records_other (hp : out ∉ tx.prevouts)
    (hn : out ∉ (tx.coins (nHeight pindex)).map Prod.fst) :
    (ledger.connect ctx pindex tx).records out = ledger.records out := by
  rw [connect]
  cases hf : ctx.fAddressIndex
  case false =>
    simp only [connectWrites, hf, Bool.false_eq_true, if_false]
    rfl
  apply updateAll_not_mem
  rw [keys_connect hf, mem_append, not_or]
  exact ⟨hp, hn⟩

lemma Consistent.connect (h : Consistent ctx txOf seen ledger) (ht : txOf tx.getHash = tx)
    (ha : ledger.Accepts pindex tx vprevout) (hn : ¬seen tx.getHash) (hp : 0 < nHeight pindex) :
    Consistent ctx txOf (fun txid => txid = tx.getHash ∨ seen txid)
      (ledger.connect ctx pindex tx) where
  known := by
    intro out coin hc
    cases connect_coins_cases hc
    case inl hm =>
      have ⟨i, he, ho, hh, _⟩ := mem_coins_outpoint hm
      refine ⟨.inl (hash_of_mem_coins hm), ?_, hh ▸ hp⟩
      rw [hash_of_mem_coins hm, ht, he]
      exact ho
    case inr hc =>
    have ⟨hs, ho, hh⟩ := h.known hc.2.2
    exact ⟨.inr hs, ho, hh⟩
  listed := by
    intro out coin hf hc
    cases connect_coins_cases hc
    case inl hm => exact connect_records_new hf hp hm
    rename_i hc
    have ⟨hpo, hk, hc⟩ := hc
    rw [connect_records_other hpo hk]
    exact h.listed hf hc
  filed := by
    intro out hr
    by_cases hh : out.hash = tx.getHash
    · exact .inl hh
    by_cases hpo : out ∈ tx.prevouts
    · have ⟨_, hc⟩ := ha.prevout hpo
      exact .inr (h.known hc).1
    rw [connect_records_other hpo (not_mem_coins_of_ne hh)] at hr
    exact .inr (h.filed hr)
  closed := by
    intro txid hs out ho
    -- Whatever a connected transaction spends was known before this one.
    have hso : seen out.hash := by
      cases hs
      case inl hs =>
        rw [hs, ht] at ho
        have ⟨_, hc⟩ := ha.prevout ho
        exact (h.known hc).1
      case inr hs => exact (h.closed hs out ho).1
    have hne : out.hash ≠ tx.getHash := fun he => hn (he ▸ hso)
    refine ⟨.inr hso, ?_⟩
    cases hs
    case inl hs =>
      rw [hs, ht] at ho
      exact connect_coins_spent ho (not_mem_coins_of_ne hne)
    rename_i hs
    have hc := (h.closed hs out ho).2
    by_contra hcon
    have ⟨coin, hcon⟩ := Option.ne_none_iff_exists'.mp hcon
    cases connect_coins_cases hcon
    case inl hm => exact hne (hash_of_mem_coins hm)
    case inr hcon => simp [hc] at hcon

-- The coins are outputs of what their hashes stand for.
def Known (txOf : Uint256 → CTransaction) (coins : COutPoint → Option Coin) : Prop :=
  ∀ out coin, coins out = some coin → (txOf out.hash).vout[out.n]? = some coin.out

omit [Crypto] in
lemma Consistent.toKnown (h : Consistent ctx txOf seen ledger) : Known txOf ledger.coins :=
  fun _ _ hc => (h.known hc).2.1

lemma Known.connect (h : Known txOf ledger.coins) (ht : (txOf tx.getHash).vout = tx.vout) :
    Known txOf (ledger.connect ctx pindex tx).coins := by
  intro out coin hc
  cases connect_coins_cases hc
  case inl hm =>
    have ⟨i, he, ho, _⟩ := mem_coins_outpoint hm
    rw [hash_of_mem_coins hm, ht, he]
    exact ho
  case inr hc => exact h out coin hc.2.2

def Grounded (coins : COutPoint → Option Coin) : Prop :=
  ∀ out coin, coins out = some coin → coin.Restorable

lemma Grounded.connect (h : Grounded ledger.coins) (ha : ledger.Accepts pindex tx vprevout)
    (hp : 0 < nHeight pindex) : Grounded (ledger.connect ctx pindex tx).coins := by
  intro out coin hc
  cases connect_coins_cases hc
  case inl hm =>
    have ⟨_, _, _, hh, hu⟩ := mem_coins_outpoint hm
    exact ⟨hh ▸ hp, ha.outputs _ hm, hu⟩
  case inr hc => exact h out coin hc.2.2

omit [Crypto] in
lemma Grounded.restorable (h : Grounded ledger.coins) (ha : ledger.Accepts pindex tx vprevout) :
    ∀ coin ∈ vprevout, coin.Restorable := by
  intro coin hm
  have ⟨i, hi, he⟩ := mem_iff_getElem.mp hm
  have hl : i < tx.prevouts.length := ha.spent.length_eq ▸ hi
  have hc := forall₂_iff_get.mp ha.spent |>.right i hl hi
  simp only [get_eq_getElem, he] at hc
  exact h _ _ hc

section

variable {vtx rest : List CTransaction} {vtxundo : CBlockUndo} {block : CBlock}

lemma AcceptsAll.grounded (h : AcceptsAll ctx pindex vtx vtxundo ledger)
    (hg : Grounded ledger.coins) (hp : 0 < nHeight pindex) :
    Grounded (ledger.connectAll ctx pindex vtx).coins := by
  induction h
  case nil => exact hg
  case cons head _ hi => exact hi (hg.connect head hp)

lemma AcceptsAll.disconnectAll_coins (h : AcceptsAll ctx pindex vtx vtxundo ledger) :
    ((ledger.connectAll ctx pindex vtx).disconnectAll ctx pindex (vtx.zip vtxundo)).coins =
      ledger.coins := by
  induction h
  case nil => rfl
  case cons head _ hi => exact (disconnect_coins_congr hi).trans head.disconnect_coins

def spentCoins (nHeight : Nat) : List CTransaction → (COutPoint → Option Coin) → CBlockUndo
  | [], _ => []
  | tx :: rest, coins =>
    tx.prevouts.filterMap coins ::
      spentCoins nHeight rest (insertAll (eraseAll coins tx.prevouts) (tx.coins nHeight))

omit [Crypto] in
lemma filterMap_of_forall₂ (h : List.Forall₂ (fun a b => f a = some b) as bs) :
    as.filterMap f = bs := by
  induction h
  case nil => rfl
  case cons ha _ hi => rw [filterMap_cons_some ha, hi]

lemma AcceptsAll.vtxundo_eq (h : AcceptsAll ctx pindex vtx vtxundo ledger) :
    vtxundo = spentCoins (nHeight pindex) vtx ledger.coins := by
  induction h
  case nil => rfl
  case cons head _ hi =>
  rw [spentCoins, filterMap_of_forall₂ head.spent, hi]
  rfl

lemma AcceptsBlock.vtxundo_eq (h : AcceptsBlock ctx pindex block vtxundo ledger) :
    vtxundo = (spentCoins (nHeight pindex) block.vtx ledger.coins).tail := by
  rw [← h.all.vtxundo_eq, tail_cons]

lemma AcceptsBlock.grounded (h : AcceptsBlock ctx pindex block vtxundo ledger)
    (hg : Grounded ledger.coins) : Grounded (ledger.connectBlock ctx pindex block).coins :=
  h.all.grounded hg h.height

def seenWith (seen : Uint256 → Prop) (vtx : List CTransaction) (txid : Uint256) : Prop :=
  txid ∈ vtx.map CTransaction.getHash ∨ seen txid

omit [Crypto] in
lemma seenWith_nil : seenWith seen [] = seen := by
  funext txid
  simp [seenWith]

omit [Crypto] in
lemma seenWith_cons : seenWith (fun txid => txid = tx.getHash ∨ seen txid) rest =
    seenWith seen (tx :: rest) := by
  funext txid
  simp only [seenWith, map_cons, mem_cons, eq_iff_iff]
  tauto

def Unseen (seen : Uint256 → Prop) : List CTransaction → Prop
  | [] => True
  | tx :: rest => ¬seen tx.getHash ∧ Unseen (fun txid => txid = tx.getHash ∨ seen txid) rest

section

variable (h : AcceptsAll ctx pindex vtx vtxundo ledger) (hp : 0 < nHeight pindex)
  (hc : Consistent ctx txOf seen ledger) (ht : ∀ tx ∈ vtx, txOf tx.getHash = tx)
include h hp hc ht

lemma AcceptsAll.unseen (hn : ∀ tx ∈ vtx, tx.prevouts ≠ []) : Unseen seen vtx := by
  induction h generalizing seen
  case nil => trivial
  case cons head _ hi =>
  have ⟨ht, hts⟩ := forall_mem_cons.mp ht
  have ⟨hn, hns⟩ := forall_mem_cons.mp hn
  have hu := hc.unseen ht head hn
  exact ⟨hu, hi (hc.connect ht head hu hp) hts hns⟩

lemma AcceptsAll.consistent (hu : Unseen seen vtx) :
    Consistent ctx txOf (seenWith seen vtx) (ledger.connectAll ctx pindex vtx) := by
  induction h generalizing seen
  case nil =>
    rw [seenWith_nil]
    exact hc
  case cons head _ hi =>
  have ⟨ht, hts⟩ := forall_mem_cons.mp ht
  rw [← seenWith_cons]
  exact hi (hc.connect ht head hu.1 hp) hts hu.2

lemma AcceptsAll.disconnectAll_connectAll (hu : Unseen seen vtx) :
    (ledger.connectAll ctx pindex vtx).disconnectAll ctx pindex (vtx.zip vtxundo) = ledger := by
  induction h generalizing seen
  case nil => rfl
  case cons head _ hi =>
  have ⟨ht, hts⟩ := forall_mem_cons.mp ht
  have hrest := hi (hc.connect ht head hu.1 hp) hts hu.2
  exact (congrArg (Ledger.disconnect ctx pindex _ _) hrest).trans
    (hc.disconnect_connect head hu.1)

end

-- The block is made of the transactions that its hashes stand for, and its coinbase is a new one.
structure NewBlock (txOf : Uint256 → CTransaction) (seen : Uint256 → Prop) (block : CBlock) :
    Prop where
  bound : ∀ tx ∈ block.vtx, txOf tx.getHash = tx
  coinbase : ∀ coinbase ∈ block.vtx.head?, ¬seen coinbase.getHash

omit [Crypto] in
lemma NewBlock.outputs (h : NewBlock txOf seen block) :
    ∀ tx ∈ block.vtx, (txOf tx.getHash).vout = tx.vout :=
  fun tx hm => congrArg CTransaction.vout (h.bound tx hm)

section

variable (h : AcceptsBlock ctx pindex block vtxundo ledger) (hc : Consistent ctx txOf seen ledger)
  (hb : NewBlock txOf seen block)
include h hc hb

lemma AcceptsBlock.unseen : Unseen seen block.vtx := by
  have ⟨coinbase, rest, hvtx, _, hr⟩ := h.first
  have ha := h.all
  have ⟨hbound, hcoin⟩ := hb
  rw [hvtx] at ha hbound hcoin ⊢
  cases ha
  case cons head tail =>
  have ⟨ht, hts⟩ := forall_mem_cons.mp hbound
  have hu := hcoin _ rfl
  exact ⟨hu, tail.unseen h.height (hc.connect ht head hu h.height) hts
    fun tx hm => (hr tx hm).2⟩

lemma AcceptsBlock.consistent :
    Consistent ctx txOf (seenWith seen block.vtx) (ledger.connectBlock ctx pindex block) :=
  h.all.consistent h.height hc hb.bound (h.unseen hc hb)

end

end

section

-- How far the entry for an outpoint has come: there is none, it is unspent, or it is spent.
def stage (records : COutPoint → Option CAddressValue) (out : COutPoint) : Nat :=
  match records out with
  | none => 0
  | some value => if value.spend_height = 0 then 1 else 2

def Unlisted (pindex : CBlockIndex) (tx : CTransaction) : Prop :=
  tx.prevouts = [] ∧ tx.coins (nHeight pindex) = []

-- No entry goes back, and one goes on unless the condition holds, when all stay as they are.
structure Advances (still : Prop) (records records' : COutPoint → Option CAddressValue) : Prop where
  le : ∀ out, stage records out ≤ stage records' out
  lt : ¬still → ∃ out, stage records out < stage records' out
  eq : still → records' = records

section

omit [Crypto]

lemma Advances.refl (h : still) : Advances still r r where
  le _ := Nat.le_refl _
  lt hs := absurd h hs
  eq _ := rfl

lemma Advances.trans (h1 : Advances still1 r1 r2) (h2 : Advances still2 r2 r3) :
    Advances (still1 ∧ still2) r1 r3 where
  le out := Nat.le_trans (h1.le out) (h2.le out)
  lt hs := by
    by_cases hs1 : still1
    · have ⟨out, hl⟩ := h2.lt fun hs2 => hs ⟨hs1, hs2⟩
      exact ⟨out, Nat.lt_of_le_of_lt (h1.le out) hl⟩
    have ⟨out, hl⟩ := h1.lt hs1
    exact ⟨out, Nat.lt_of_lt_of_le hl (h2.le out)⟩
  eq hs := (h2.eq hs.2).trans (h1.eq hs.1)

lemma Advances.eq_iff (h : Advances still r1 r2) : r2 = r1 ↔ still := by
  refine ⟨fun he => ?_, h.eq⟩
  by_contra hs
  have ⟨out, hl⟩ := h.lt hs
  rw [he] at hl
  exact Nat.lt_irrefl _ hl

end

lemma updateAll_spentWrites {coins : COutPoint → Option Coin} (hn : tx.prevouts.Nodup)
    (ho : out ∈ tx.prevouts) (hc : coins out = some coin) (records) :
    ∃ j, updateAll records (recorded (ctx.spentWrites pindex tx coins)) out =
      (ctx.spentEntry pindex tx coin j).live := by
  have ⟨j, hj, he⟩ := mem_iff_getElem.mp ho
  have hm : (out, j) ∈ tx.prevouts.zipIdx := by
    rw [mk_mem_zipIdx_iff_getElem?, getElem?_eq_getElem hj, he]
  have hk : recorded (ctx.spentWrites pindex tx coins) =
      tx.prevouts.zipIdx.map fun p =>
        (p.1, (ctx.spentEntry pindex tx ((coins p.1).getD Coin.empty) p.2).live) := by
    simp [recorded, spentWrites, CAddressKey.ofScript]
  refine ⟨j, ?_⟩
  rw [hk]
  apply updateAll_of_mem
  case hn =>
    rw [map_map]
    exact (zipIdx_map_fst 0 tx.prevouts).symm ▸ hn
  case h => exact mem_map.mpr ⟨(out, j), hm, by rw [hc]; rfl⟩

lemma connect_records_spent (hf : ctx.fAddressIndex) (ha : ledger.Accepts pindex tx vprevout)
    (ho : out ∈ tx.prevouts) (hn : out ∉ (tx.coins (nHeight pindex)).map Prod.fst) :
    ∃ coin j, ledger.coins out = some coin ∧
      (ledger.connect ctx pindex tx).records out = (ctx.spentEntry pindex tx coin j).live := by
  have ⟨coin, hcoin⟩ := ha.prevout ho
  have ⟨j, hj⟩ := @updateAll_spentWrites _ ctx pindex tx out coin ledger.coins ha.inputs ho hcoin
    ledger.records
  have hw : recorded (ctx.connectWrites pindex tx ledger.coins) =
      recorded (ctx.spentWrites pindex tx ledger.coins) ++ recorded (createdWrites pindex tx) := by
    rw [connectWrites, if_pos hf, recorded_append]
  have hcr : out ∉ (recorded (createdWrites pindex tx)).map Prod.fst := by
    simpa [recorded, createdWrites, CAddressKey.ofScript] using hn
  refine ⟨coin, j, hcoin, ?_⟩
  rw [connect]
  dsimp only
  rw [hw, updateAll_append, updateAll_not_mem hcr, hj]

variable {vtx : List CTransaction} {vtxundo : CBlockUndo} {block : CBlock}
variable (hf : ctx.fAddressIndex) (ht : ctx.fTxIndex) (hp : 0 < nHeight pindex)

include hf ht hp

lemma Consistent.connect_advances (hc : Consistent ctx txOf seen ledger)
    (ha : ledger.Accepts pindex tx vprevout) (hn : ¬seen tx.getHash) :
    Advances (Unlisted pindex tx) ledger.records (ledger.connect ctx pindex tx).records := by
  have hcreated {out : COutPoint} (hm : out ∈ (tx.coins (nHeight pindex)).map Prod.fst) :
      stage ledger.records out = 0 ∧ stage (ledger.connect ctx pindex tx).records out = 1 := by
    have ⟨⟨_, coin⟩, hm, he⟩ := mem_map.mp hm
    rw [← he, stage, stage, hc.record_none hn hm, connect_records_new hf hp hm]
    exact ⟨rfl, rfl⟩
  have hspent {out : COutPoint} (ho : out ∈ tx.prevouts)
      (hm : out ∉ (tx.coins (nHeight pindex)).map Prod.fst) :
      stage ledger.records out = 1 ∧ stage (ledger.connect ctx pindex tx).records out = 2 := by
    have ⟨coin, j, hcoin, hv⟩ := connect_records_spent hf ha ho hm
    have hl : (ctx.spentEntry pindex tx coin j).live = some (ctx.spentEntry pindex tx coin j) := by
      apply CAddressValue.live_eq_some
      simp only [spentEntry, ht, if_true]
      exact (hc.known hcoin).2.2
    rw [stage, stage, hc.listed hf hcoin, hv, hl]
    exact ⟨rfl, if_neg (Nat.pos_iff_ne_zero.mp hp)⟩
  constructor
  case le =>
    intro out
    by_cases hm : out ∈ (tx.coins (nHeight pindex)).map Prod.fst
    · have := hcreated hm
      omega
    by_cases ho : out ∈ tx.prevouts
    · have := hspent ho hm
      omega
    · rw [stage, stage, connect_records_other ho hm]
  case lt =>
    intro hu
    by_cases hk : tx.coins (nHeight pindex) = []
    · have ⟨out, ho⟩ := exists_mem_of_ne_nil _ fun he => hu ⟨he, hk⟩
      have := hspent ho (by simp [hk])
      exact ⟨out, by omega⟩
    have ⟨kv, hm⟩ := exists_mem_of_ne_nil _ hk
    have := hcreated (mem_map_of_mem hm)
    exact ⟨kv.1, by omega⟩
  case eq =>
  intro hu
  funext out
  apply connect_records_other
  case hp => simp [hu.1]
  case hn => simp [hu.2]

lemma AcceptsAll.advances (h : AcceptsAll ctx pindex vtx vtxundo ledger)
    (hc : Consistent ctx txOf seen ledger) (hb : ∀ tx ∈ vtx, txOf tx.getHash = tx)
    (hu : Unseen seen vtx) :
    Advances (∀ tx ∈ vtx, Unlisted pindex tx) ledger.records
      (ledger.connectAll ctx pindex vtx).records := by
  induction h generalizing seen
  case nil => exact .refl fun _ hm => nomatch hm
  case cons head _ hi =>
  have ⟨hb, hbs⟩ := forall_mem_cons.mp hb
  rw [forall_mem_cons]
  exact (hc.connect_advances hf ht hp head hu.1).trans
    (hi (hc.connect hb head hu.1 hp) hbs hu.2)

end

section

-- Without a transaction index the records only follow the coins. From a base on, the record of a coin
-- is its entry, and that of a spent output is gone.
def Follows (base now : Ledger) : Prop :=
  ∀ out, match now.coins out with
  | some coin => now.records out = some coin.entry ∧
    (base.coins out = some coin ∨ base.records out = none)
  | none => now.records out = none ∧ (base.coins out = none → base.records out = none) ∨
    base.coins out = none ∧ now.records out = base.records out

variable {base now : Ledger} {vtx : List CTransaction} {vtxundo : CBlockUndo} {block : CBlock}
variable (hf : ctx.fAddressIndex) (ht : ctx.fTxIndex = false)

include hf

omit [Crypto] in
lemma Follows.refl (hc : Consistent ctx txOf seen base) : Follows base base := by
  intro out
  cases ho : base.coins out
  case none => exact .inr ⟨rfl, rfl⟩
  case some coin => exact ⟨hc.listed hf ho, .inl rfl⟩

omit [Crypto] in
lemma Follows.records_eq_iff (h : Follows base now) (hc : Consistent ctx txOf seen base) :
    now.records = base.records ↔ now.coins = base.coins := by
  constructor
  · intro he
    funext out
    have h := h out
    rw [he] at h
    cases ho : now.coins out
    case none =>
      simp only [ho] at h
      cases hb : base.coins out
      case none => rfl
      case some coin => simp [hb, hc.listed hf hb] at h
    simp only [ho] at h
    cases h.2
    case inl hb => exact hb.symm
    case inr hb => simp [hb] at h
  intro he
  funext out
  have h := h out
  rw [he] at h
  cases hb : base.coins out
  case none =>
    simp only [hb, true_and, true_implies] at h
    cases h
    case inl h => exact h.1.trans h.2.symm
    case inr h => exact h
  case some coin =>
  simp only [hb] at h
  exact h.1.trans (hc.listed hf hb).symm

include ht

lemma Follows.connect (h : Follows base now) (hp : 0 < nHeight pindex)
    (ha : now.Accepts pindex tx vprevout)
    (hb : ∀ out, base.records out ≠ none → out.hash ≠ tx.getHash) :
    Follows base (now.connect ctx pindex tx) := by
  intro out
  by_cases hm : out ∈ (tx.coins (nHeight pindex)).map Prod.fst
  · have ⟨⟨_, coin⟩, hk, he⟩ := mem_map.mp hm
    subst he
    rw [connect_coins_new hk]
    refine ⟨connect_records_new hf hp hk, .inr ?_⟩
    by_contra hr
    exact hb _ hr (hash_of_mem_coins hk)
  have h := h out
  by_cases ho : out ∈ tx.prevouts
  · have ⟨coin, j, hcoin, hv⟩ := connect_records_spent hf ha ho hm
    rw [connect_coins_spent ho hm]
    rw [hcoin] at h
    refine .inl ⟨hv.trans ?_, fun hn => h.2.resolve_left (by simp [hn])⟩
    simp [spentEntry, ht, CAddressValue.live]
  rw [connect_coins_other ho hm, connect_records_other ho hm]
  exact h

lemma AcceptsAll.follows (h : AcceptsAll ctx pindex vtx vtxundo now) (hp : 0 < nHeight pindex)
    (hl : Follows base now) (hc : Consistent ctx txOf seen now)
    (hs : ∀ out, base.records out ≠ none → seen out.hash)
    (hb : ∀ tx ∈ vtx, txOf tx.getHash = tx) (hu : Unseen seen vtx) :
    Follows base (now.connectAll ctx pindex vtx) := by
  induction h generalizing seen
  case nil => exact hl
  case cons head _ hi =>
  have ⟨hb, hbs⟩ := forall_mem_cons.mp hb
  exact hi (hl.connect hf ht hp head fun out hr he => hu.1 (he ▸ hs out hr))
    (hc.connect hb head hu.1 hp) (fun out hr => .inr (hs out hr)) hbs hu.2

end

end Ledger

end Taler
