import TalerModel.Script.Theorems.SignatureHash
import TalerModel.Script.Theorems.Interpreter
import TalerModel.Script.CuckooCache
import TalerModel.Chain.Theorems.Locator
import TalerModel.Chain.Theorems.Work
import TalerModel.Consensus.Theorems.Merkle
import TalerModel.Validation.LockPoints
import TalerModel.Consensus.Theorems.Retarget
import TalerModel.Chain.Theorems.StakeDB
import TalerModel.Chain.Theorems.Modifier
import TalerModel.Validation.Theorems.BlockFiles
import TalerModel.Validation.Theorems.Retarget
import TalerModel.Validation.Theorems.Load
import TalerModel.Net.Theorems.Headers
import TalerModel.Net.Theorems.AddrMan
import TalerModel.Consensus.Theorems.Supply
import TalerModel.Consensus.Theorems.CoinAge
import TalerModel.Validation.Theorems.AddressInfo
import TalerModel.Validation.Theorems.Replay
import TalerModel.Validation.Theorems.VerifyDB
import TalerModel.Validation.Theorems.Copies
import TalerModel.Validation.Theorems.Silence
import TalerModel.Wallet.Theorems.Opened
