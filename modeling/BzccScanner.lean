import BzccScanner.Mealy
import BzccScanner.CString
import BzccScanner.KeyValueInfo
import BzccScanner.ParseData
import BzccScanner.WholeDocuments
import BzccScanner.AcceptedTexts
import BzccScanner.LobbyReports
import BzccScanner.Truncation
import BzccScanner.HttpFileAgreement
import BzccScanner.HttpFraming
import BzccScanner.ScanProtocol
import BzccScanner.NickTableRefinement
import BzccScanner.Capacity
import BzccScanner.NoStaleData
import BzccScanner.FalseNotices
import BzccScanner.RenameDialog
import BzccScanner.AutoRefresh
import BzccScanner.AutoScanAlive
import BzccScanner.ScanHandle
import BzccScanner.WindowScans
import BzccScanner.Checksum
import BzccScanner.NickFrame
import BzccScanner.Comparison
import BzccScanner.FieldStrings
import BzccScanner.SendLoop
import BzccScanner.ModList
import BzccScanner.CrcAgreement
import BzccScanner.EntryCopy
import BzccScanner.ScanInterval
import BzccScanner.StatusCheck
import BzccScanner.ScreenSettings
import BzccScanner.ScreenLobby
import BzccScanner.NickListing
import BzccScanner.PromptEnd
import BzccScanner.LobbyNotices
import BzccScanner.BufferedReader
import BzccScanner.NickMemory
import BzccScanner.ScanResources
import BzccScanner.ScanTarget
