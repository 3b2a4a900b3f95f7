import KaidaDB.Api.Proof.Damage
import KaidaDB.Api.Proof.MpdText
import KaidaDB.Api.Proof.RangeRequests
import KaidaDB.Cli.Proof.Main
import KaidaDB.Concurrent.Proof.Compaction
import KaidaDB.Concurrent.Proof.History
import KaidaDB.Concurrent.Proof.KeyLock
import KaidaDB.Concurrent.Proof.Locks
import KaidaDB.Concurrent.Proof.LogOrder
import KaidaDB.Concurrent.Proof.PowerLoss
import KaidaDB.Storage.Proof.AppendFaults
import KaidaDB.Storage.Proof.ChunkFormat
import KaidaDB.Storage.Proof.Durable
import KaidaDB.Storage.Proof.HexIds
import KaidaDB.Storage.Proof.LogSize
import KaidaDB.Storage.Proof.Reclaim
import KaidaDB.Storage.Proof.RenameStop
import KaidaDB.Storage.Proof.SessionFaults
import KaidaDB.Tui.Proof.InputWindow
import KaidaDB.Tui.Proof.Rename
import KaidaDB.Tui.Proof.TextInput
import KaidaDB.Tui.Proof.Timestamp
import KaidaDB.Tui.Proof.Upload
