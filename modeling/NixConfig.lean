import NixConfig.MediaRepair.Repair.Reuse
import NixConfig.MediaRepair.Repair.Evidence
import NixConfig.MediaRepair.RepairRadarr
import NixConfig.MediaRepair.Repair.Confirmation
import NixConfig.MediaRepair.Repair.Submission
import NixConfig.MediaRepair.Repair.Exclusion
import NixConfig.MediaRepair.Repair.Continuity
import NixConfig.MediaRepair.Repair.Finality
import NixConfig.MediaRepair.CaseBuilder.Exposure
import NixConfig.MediaRepair.Controller.StreamCompatibility
import NixConfig.MediaRepair.Repair.Removal
import NixConfig.TorrentCleaner.Cleanup
import NixConfig.AdaptiveUpload.Policy
import NixConfig.Backups.RepoAcl
import NixConfig.MediaRepair.Materialize.Reuse
import NixConfig.MediaRepair.JoinVerification.Timeline
import NixConfig.MediaRepair.RepairLidarr.Planning
import NixConfig.MediaRepair.FFProbe.Normalize
import NixConfig.MediaRepair.DecisionPolicy.Remux
import NixConfig.MediaRepair.Filesystem.Inventory
import NixConfig.FleetTools.DiffClassification
import NixConfig.FleetTools.DeployContention
import NixConfig.FleetTools.StorePaths
import NixConfig.MediaRepair.Cuesheet
import NixConfig.MediaRepair.Servarr.PageReaders
import NixConfig.MediaRepairPlanner.LidarrValidation
import NixConfig.MediaRepairPlanner.RadarrProjection
import NixConfig.EbookConverter.Books
import NixConfig.EbookConverter.Service
import NixConfig.Sops
