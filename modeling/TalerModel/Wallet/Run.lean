import TalerModel.Wallet.Balance
import TalerModel.Wallet.Load

namespace Taler

inductive WalletCall
  | transactionAddedToMempool (ptx : CTransaction)
  | transactionRemovedFromMempool (ptx : CTransaction)
  | blockConnected (vtx : List CTransaction) (pindex : CBlockIndex)
      (vtxConflicted : List CTransaction) (fInitialBlockDownload : Bool) (last : Option Int)
  | blockDisconnected (vtx : List CTransaction)
  | abandonTransaction (hashTx : Uint256)
  | commitTransaction (tx : CTransaction) (mapValue orderForm : List (String × String))
      (fromAccount : String) (fBroadcastTransactions accepted : Bool)
  | getBalance (min_depth : Int)
  | addToWallet (wtxIn : CWalletTx)
  | markConflicted (hashBlock hashTx : Uint256)

namespace WalletCall

variable {κ : Type} (ctx : WalletContext κ) (node : NodeView)

open CWallet in
def perform : WalletCall → WalletM κ Unit
  | .transactionAddedToMempool ptx => CWallet.transactionAddedToMempool ctx node ptx
  | .transactionRemovedFromMempool ptx => CWallet.transactionRemovedFromMempool ptx
  | .blockConnected vtx pindex vtxConflicted fInitialBlockDownload last =>
    CWallet.blockConnected ctx node vtx pindex vtxConflicted fInitialBlockDownload last
  | .blockDisconnected vtx => CWallet.blockDisconnected ctx node vtx
  | .abandonTransaction hashTx => do
    let _ ← CWallet.abandonTransaction node hashTx
    pure ()
  | .commitTransaction tx mapValue orderForm fromAccount fBroadcastTransactions accepted =>
    CWallet.commitTransaction ctx node tx mapValue orderForm fromAccount fBroadcastTransactions
      accepted
  | .getBalance min_depth => do
    let _ ← CWallet.getBalance ctx node min_depth
    pure ()
  | .addToWallet wtxIn => do
    let _ ← CWallet.addToWallet ctx node wtxIn
    pure ()
  | .markConflicted hashBlock hashTx => CWallet.markConflicted node hashBlock hashTx

end WalletCall

end Taler
