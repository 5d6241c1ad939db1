import TonNode.Adnl.ReplayWindow
import TonNode.Block.GasPrices
import TonNode.Common.BigInt
import TonNode.Common.PersistentTreap
import TonNode.Shard.RoutingGuarantees
import TonNode.Simplex.FinalizerGuarantees
import TonNode.Simplex.Network
import TonNode.Simplex.StorageGuarantees
import TonNode.Tolk.FieldPaths
import TonNode.Tolk.MergeStores
import TonNode.Vm.BocDecompressionGuarantees
import TonNode.Vm.ChildVm
import TonNode.Vm.DictBulkGuarantees
import TonNode.Vm.DictNearest
import TonNode.Vm.DictScanProperties
import TonNode.Vm.LargeBocGuarantees
import TonNode.Db.CellGraph
import TonNode.Db.InMemoryCommit
import TonNode.Db.InMemoryGuarantees
