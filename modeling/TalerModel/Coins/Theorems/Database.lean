import TalerModel.Coins.Database
import TalerModel.Coins.Theorems.Stack

namespace Taler

open CCoinsViewCache CoinsStack

lemma CCoinsViewCache.overlaid_mixed {entries : List (COutPoint × CCoinsCacheEntry)}
    {coins : COutPoint → Option Coin} (hn : (entries.map Prod.fst).Nodup) (hp : first <+: entries)
    (o) : overlaid coins first o = coins o ∨ overlaid coins first o = overlaid coins entries o := by
  by_cases ho : o ∈ first.map Prod.fst
  case neg => exact .inl (overlaid_not_mem ho)
  have ⟨⟨_, e⟩, hm, he⟩ := List.mem_map.mp ho
  subst he
  have hn' : (first.map Prod.fst).Nodup := (hp.map Prod.fst).sublist.nodup hn
  exact .inr (by rw [overlaid_mem hn' hm, overlaid_mem hn (hp.mem hm)])

namespace CCoinsViewDB

variable {db : CCoinsViewDB} {mapCoins : List (COutPoint × CCoinsCacheEntry)} {hashBlock : Uint256}
  {overLimit : CDBBatch → Bool} {batch : CDBBatch}

lemma writeBatch_append (db : CCoinsViewDB) (batch batch') :
    db.writeBatch (batch ++ batch') = (db.writeBatch batch).writeBatch batch' :=
  List.foldl_append ..

lemma writeBatches_eq (db : CCoinsViewDB) (batches) :
    db.writeBatches batches = db.writeBatch batches.flatten := by
  induction batches generalizing db
  case nil => rfl
  case cons batch batches hi =>
  rw [List.flatten_cons, writeBatch_append, ← hi]
  rfl

def coinWrites (mapCoins : List (COutPoint × CCoinsCacheEntry)) : CDBBatch :=
  mapCoins.flatMap fun p => entryWrites p.1 p.2

lemma writeBatch_coinWrites :
    (db.writeBatch (coinWrites mapCoins)).coins = overlaid db.coins mapCoins ∧
    (db.writeBatch (coinWrites mapCoins)).bestBlock = db.bestBlock ∧
    (db.writeBatch (coinWrites mapCoins)).headBlocks = db.headBlocks := by
  induction mapCoins generalizing db
  case nil => exact ⟨rfl, rfl, rfl⟩
  case cons p mapCoins hi =>
  have ⟨hc, hb, hh⟩ := @hi (db.writeBatch (entryWrites p.1 p.2))
  have he : (db.writeBatch (entryWrites p.1 p.2)).coins =
      (if p.2.dirty then Function.update db.coins p.1 p.2.unspent else db.coins) ∧
      (db.writeBatch (entryWrites p.1 p.2)).bestBlock = db.bestBlock ∧
      (db.writeBatch (entryWrites p.1 p.2)).headBlocks = db.headBlocks := by
    rw [entryWrites]
    cases hd : p.2.dirty
    case false => exact ⟨rfl, rfl, rfl⟩
    case true =>
    cases hs : p.2.coin.isSpent <;>
      simp [writeBatch, write, setCoin, CCoinsCacheEntry.unspent, hs, Option.filter]
  rw [coinWrites, List.flatMap_cons, writeBatch_append]
  exact ⟨hc.trans (by rw [he.1]; rfl), hb.trans he.2.1, hh.trans he.2.2⟩

-- All batches together, and those that come first without the last one.

lemma batchesFrom_flatten : (batchesFrom overLimit hashBlock batch mapCoins).flatten =
    batch ++ coinWrites mapCoins ++ [.eraseHeadBlocks, .writeBestBlock hashBlock] := by
  induction mapCoins generalizing batch
  case nil => simp [batchesFrom, coinWrites]
  case cons p mapCoins hi =>
  rw [batchesFrom]
  split
  · rw [List.flatten_cons, hi]; simp [coinWrites]
  · rw [hi]; simp [coinWrites]

lemma batchesFrom_take (hk : k ≠ 0)
    (hl : k < (batchesFrom overLimit hashBlock batch mapCoins).length) :
    ∃ first, first <+: mapCoins ∧
      ((batchesFrom overLimit hashBlock batch mapCoins).take k).flatten = batch ++ coinWrites first := by
  induction mapCoins generalizing batch k
  case nil =>
    simp only [batchesFrom, List.length_singleton] at hl
    omega
  case cons p mapCoins hi =>
  rw [batchesFrom] at hl ⊢
  split at hl
  case isFalse hf =>
    have ⟨first, hp, he⟩ := hi hk hl
    refine ⟨p :: first, List.prefix_cons_inj p |>.mpr hp, ?_⟩
    rw [if_neg hf, he]
    simp [coinWrites]
  rename_i ht
  rw [if_pos ht]
  cases k
  case zero => exact absurd rfl hk
  case succ k =>
  rw [List.take_succ_cons, List.flatten_cons]
  cases k
  case zero => exact ⟨[p], ⟨mapCoins, rfl⟩, by simp [coinWrites]⟩
  case succ k =>
  have ⟨first, hp, he⟩ := hi (Nat.succ_ne_zero k) (Nat.lt_of_succ_lt_succ hl)
  refine ⟨p :: first, List.prefix_cons_inj p |>.mpr hp, ?_⟩
  rw [he]
  simp [coinWrites]

lemma batchWrite_ok (h : db.batchWrite overLimit mapCoins hashBlock = .ok batches) :
    hashBlock ≠ 0 ∧ ∃ old_tip, db.oldTip hashBlock = .ok old_tip ∧
      batches = batchesFrom overLimit hashBlock
        [.eraseBestBlock, .writeHeadBlocks [hashBlock, old_tip]] mapCoins := by
  have ⟨hz, h⟩ := Check.seq_eq_ok.mp h
  have ⟨old_tip, ho, h⟩ := Check.bind_eq_ok.mp h
  cases h
  exact ⟨by simpa using hz, old_tip, ho, rfl⟩

lemma batchWrite_succeeds (hz : hashBlock ≠ 0) (ho : db.oldTip hashBlock = .ok old_tip) :
    ∃ batches, db.batchWrite overLimit mapCoins hashBlock = .ok batches := by
  refine ⟨_, Check.seq_eq_ok.mpr ⟨?_, Check.bind_eq_ok.mpr ⟨old_tip, ho, rfl⟩⟩⟩
  simpa using hz

section

variable (h : db.batchWrite overLimit mapCoins hashBlock = .ok batches)
include h

lemma batchWrite_all :
    (db.writeBatches batches).coins = overlaid db.coins mapCoins ∧
    (db.writeBatches batches).bestBlock = some hashBlock ∧
    (db.writeBatches batches).headBlocks = none := by
  have ⟨_, old_tip, _, he⟩ := batchWrite_ok h
  rw [he, writeBatches_eq, batchesFrom_flatten, writeBatch_append, writeBatch_append]
  exact ⟨writeBatch_coinWrites.1, rfl, rfl⟩

lemma batchWrite_interrupted (hk : k ≠ 0) (hl : k < batches.length) :
    ∃ first old_tip, first <+: mapCoins ∧ db.oldTip hashBlock = .ok old_tip ∧
      (db.writeBatches (batches.take k)).coins = overlaid db.coins first ∧
      (db.writeBatches (batches.take k)).bestBlock = none ∧
      (db.writeBatches (batches.take k)).headBlocks = some [hashBlock, old_tip] := by
  have ⟨_, old_tip, ho, he⟩ := batchWrite_ok h
  subst he
  have ⟨first, hp, hf⟩ := batchesFrom_take hk hl
  have ⟨hc, hb, hh⟩ := @writeBatch_coinWrites
    (db.writeBatch [.eraseBestBlock, .writeHeadBlocks [hashBlock, old_tip]]) first
  rw [writeBatches_eq, hf, writeBatch_append]
  exact ⟨first, old_tip, hp, ho, hc, hb, hh⟩

end

end CCoinsViewDB

end Taler
